import CommitLog.Proofs.Actor.Tickets

/-!
# What callers are answered, and what closing ends

An answer tells what became of a submission: whoever is told that the actor is closed had nothing
run, and every other answer is that of something that ran (`Explained`). Of those who request
closing only one gets as far as the mailbox (`OneCloser`), so there is one teardown, and behind it
the worker does no more work (`TeardownLast`).
-/

namespace CommitLog.Actor.Contention

variable {ρ υ α : Type} {behaviour : Behaviour ρ υ α} {machine next : Machine ρ υ α} {name : String}
  {begun begun' : List (Ticket × Envelope υ)} {ran ran' : List (Ran υ α)}
  {answer : Ticket × Except Error α} {ticket : Ticket} {envelope : Envelope υ}
  {submission : Ticket × Envelope υ}

/-! ## What has been begun -/

theorem InOrder.sublist (h : InOrder machine) : machine.begun.Sublist machine.enqueued := by
  obtain ⟨front, hfront, hbegun⟩ := h
  rw [hfront, List.append_assoc]
  exact hbegun.trans (List.sublist_append_left ..)

/-- What is in the mailbox, or in the hands of the worker to be judged, has not been begun. -/
theorem InOrder.not_begun (h : InOrder machine) (hkept : machine.Kept)
    (hmem : submission ∈ machine.worker.held ++ machine.actor.waiting) :
    ∀ other ∈ machine.begun, other.1 ≠ submission.1 := by
  obtain ⟨front, hfront, hbegun⟩ := h
  intro other hother
  have honce := hkept.tidy.once
  rw [hfront, List.append_assoc, List.map_append] at honce
  exact (List.nodup_append.1 honce).2.2 _ (List.mem_map_of_mem (hbegun.subset hother)) _
    (List.mem_map_of_mem hmem)

/-- What a caller has not put into the mailbox yet has not been begun. -/
theorem InOrder.not_begun_of_asks (h : InOrder machine) (hkept : machine.Kept)
    (hasks : (machine.callers ticket).asks? = some envelope) :
    ∀ other ∈ machine.begun, other.1 ≠ ticket := by
  rintro other hother rfl
  exact (hkept.tidy.asks _ _ hasks).1 (hkept.tidy.kept other (h.sublist.subset hother)).1

/-- What the worker has in its hands has no answer yet. -/
theorem Machine.Kept.ne_of_owes (h : machine.Kept) (howes : machine.worker.owes? = some ticket)
    (hanswer : answer ∈ machine.actor.answers) : ticket ≠ answer.1 := by
  have hdistinct := h.tidy.distinct
  unfold tickets at hdistinct
  rw [howes, List.append_assoc] at hdistinct
  exact (List.nodup_append.1 hdistinct).2.2 _ (List.mem_singleton_self _) _
    (List.mem_append_right _ (List.mem_map_of_mem hanswer))

/-! ## Answers -/

/-- An answer says that nothing was run, and nothing was; or it is that of something that ran. -/
def Explains (name : String) (begun : List (Ticket × Envelope υ)) (ran : List (Ran υ α))
    (answer : Ticket × Except Error α) : Prop :=
  answer.2 = .error (.closed name) ∧ (∀ submission ∈ begun, submission.1 ≠ answer.1) ∨
    ∃ one ∈ ran, one.ticket = answer.1 ∧ answer.2 = replyTo name one.outcome

theorem Explains.mono (h : Explains name begun ran answer)
    (hbegun : ∀ submission ∈ begun', submission ∈ begun ∨ submission.1 ≠ answer.1)
    (hran : ran ⊆ ran') : Explains name begun' ran' answer := by
  refine h.imp (fun ⟨hclosed, hnot⟩ => ⟨hclosed, fun submission hsubmission => ?_⟩)
    fun ⟨one, hone, hanswer⟩ => ⟨one, hran hone, hanswer⟩
  exact (hbegun submission hsubmission).elim (hnot submission) id

/-- What answers tell. -/
structure Explained (machine : Machine ρ υ α) : Prop where
  answers : ∀ answer ∈ machine.actor.answers,
    Explains machine.actor.name machine.begun machine.ran answer
  /-- What the worker is about to answer has come to its end so. -/
  owed : ∀ ticket outcome, machine.worker.result? = some (ticket, outcome) →
    ∃ one ∈ machine.ran, one.ticket = ticket ∧ one.outcome = outcome

theorem explained_start (name : String) (depth : Nat) (initial : ρ) :
    Explained (.start name depth initial : Machine ρ υ α) :=
  ⟨nofun, nofun⟩

theorem mem_begun_of_mem_ran (h : submission ∈ machine.ran.map Ran.submission ++ []) :
    submission ∈ machine.begun := by
  rw [List.append_nil] at h
  exact List.mem_append_left _ h

namespace Explained

variable (h : Explained machine)

include h

/-- Somebody is refused whose submission has not been begun. -/
theorem refuse (hnot : ∀ submission ∈ machine.begun, submission.1 ≠ ticket) :
    ∀ answer ∈ (machine.actor.refuse ticket).answers,
      Explains machine.actor.name machine.begun machine.ran answer := by
  intro answer hanswer
  rcases List.mem_append.1 hanswer with hold | hnew
  · exact h.answers answer hold
  · rw [List.mem_singleton.1 hnew]
    exact .inl ⟨rfl, hnot⟩

/-- Somebody is answered whose submission has come to its end. -/
theorem reply {outcome : Except Panic α}
    (hresult : machine.worker.result? = some (ticket, outcome)) :
    ∀ answer ∈ machine.actor.answers ++ [(ticket, replyTo machine.actor.name outcome)],
      Explains machine.actor.name machine.begun machine.ran answer := by
  intro answer hanswer
  rcases List.mem_append.1 hanswer with hold | hnew
  · exact h.answers answer hold
  · obtain ⟨one, hone, hticket, houtcome⟩ := h.owed ticket outcome hresult
    rw [List.mem_singleton.1 hnew]
    exact .inr ⟨one, hone, hticket, by rw [houtcome]⟩

/-- The worker begins what it has in its hands. -/
theorem begin (hkept : machine.Kept) (howes : machine.worker.owes? = some ticket)
    (hbegun : ∀ submission ∈ begun', submission ∈ machine.begun ∨ submission.1 = ticket)
    (hran : machine.ran ⊆ ran') : ∀ answer ∈ machine.actor.answers,
      Explains machine.actor.name begun' ran' answer := by
  intro answer hanswer
  refine (h.answers answer hanswer).mono (fun submission hsubmission => ?_) hran
  refine (hbegun submission hsubmission).imp_right fun hticket => ?_
  rw [hticket]
  exact hkept.ne_of_owes howes hanswer

/-- Something comes to its end that the worker has in its hands. -/
theorem finish (hkept : machine.Kept) {one : Ran υ α}
    (howes : machine.worker.owes? = some one.ticket) : ∀ answer ∈ machine.actor.answers,
      Explains machine.actor.name ((machine.ran ++ [one]).map Ran.submission ++ [])
        (machine.ran ++ [one]) answer := by
  refine h.begin hkept howes (fun submission hsubmission => ?_) (List.subset_append_left ..)
  rw [List.append_nil, List.map_append] at hsubmission
  refine (List.mem_append.1 hsubmission).imp (List.mem_append_left _) fun hnew => ?_
  rw [List.mem_singleton.1 hnew]
  rfl

theorem step (hkept : machine.Kept) (horder : InOrder machine)
    (hstep : Step behaviour machine next) : Explained next := by
  -- where nothing is in service, what has begun is what has come to its end
  have hsettled : ∀ answer, Explains machine.actor.name machine.begun machine.ran answer →
      Explains machine.actor.name (machine.ran.map Ran.submission ++ []) machine.ran answer :=
    fun answer hanswer =>
      hanswer.mono (fun _ hmem => .inl (mem_begun_of_mem_ran hmem)) (List.Subset.refl _)
  cases hstep with
  | refused stage | closedBefore stage | bounced stage =>
    exact ⟨h.refuse (horder.not_begun_of_asks hkept (by rw [stage]; rfl)), h.owed⟩
  | takes | quits | counts =>
    exact ⟨fun answer hmem => hsettled answer (h.answers answer hmem), nofun⟩
  | @drops ticket unit stage =>
    have hheld : (ticket, .run unit) ∈ machine.worker.held ++ machine.actor.waiting := by
      rw [stage]
      exact List.mem_cons_self
    have hrefused := h.refuse (horder.not_begun hkept hheld)
    exact ⟨fun answer hmem => hsettled answer (hrefused answer hmem), nofun⟩
  | @drains _ other _ envelope _ _ first =>
    have hwaiting : (other, envelope) ∈ machine.worker.held ++ machine.actor.waiting := by
      rw [first]
      exact List.mem_append_right _ List.mem_cons_self
    exact ⟨h.refuse (horder.not_begun hkept hwaiting), h.owed⟩
  | begins stage =>
    refine ⟨h.begin hkept (by rw [stage]; rfl) (fun submission hmem => ?_) (List.Subset.refl _),
      nofun⟩
    refine (List.mem_append.1 hmem).imp (List.mem_append_left _) fun hnew => ?_
    rw [List.mem_singleton.1 hnew]
  | @ends ticket unit left served outcome resource stage =>
    refine ⟨h.finish hkept (by rw [stage]; rfl), fun other result hresult => ?_⟩
    cases hresult
    exact ⟨_, List.mem_concat_self, rfl, rfl⟩
  | tearsDown stage =>
    refine ⟨h.finish hkept (by rw [stage]; rfl), fun other result hresult => ?_⟩
    cases hresult
    exact ⟨_, List.mem_concat_self, rfl, rfl⟩
  | replies stage =>
    have hreply := h.reply (by rw [stage]; rfl)
    exact ⟨fun answer hmem => hsettled answer (hreply answer hmem), nofun⟩
  | @stops ticket value stage =>
    have hresult : machine.worker.result? = some (ticket, .ok value) := by
      rw [stage]
      rfl
    exact ⟨fun answer hmem => hsettled answer (h.reply hresult answer hmem), nofun⟩
  | finishes stage | shuts stage =>
    refine ⟨fun answer hmem => hsettled answer (h.answers answer hmem), fun other result hr => ?_⟩
    exact h.owed other result (by rw [stage]; exact hr)
  | _ => exact ⟨h.answers, h.owed⟩

end Explained

/-! ## Closing -/

/-- Whoever requested closing and was not refused: it is in front of the mailbox, or got there. -/
def Closer (callers : Ticket → Caller υ α) (enqueued : List (Ticket × Envelope υ))
    (ticket : Ticket) : Prop :=
  ∃ teardown, callers ticket = .sending (.close teardown) ∨ (ticket, .close teardown) ∈ enqueued

/-- There is no more than one, and none until closing was requested. -/
structure OneCloser (machine : Machine ρ υ α) : Prop where
  requested : ∀ ticket, Closer machine.callers machine.enqueued ticket →
    machine.actor.closing = true
  single : ∀ ticket other, Closer machine.callers machine.enqueued ticket →
    Closer machine.callers machine.enqueued other → ticket = other

theorem oneCloser_start (name : String) (depth : Nat) (initial : ρ) :
    OneCloser (.start name depth initial : Machine ρ υ α) where
  requested ticket hcloser := by
    obtain ⟨teardown, hcaller | hmem⟩ := hcloser
    · cases hcaller
    · cases hmem
  single ticket other hcloser := by
    obtain ⟨teardown, hcaller | hmem⟩ := hcloser
    · cases hcaller
    · cases hmem

/-- A caller that goes on does not become one, unless it sends a teardown. -/
theorem Closer.of_update {callers : Ticket → Caller υ α} {enqueued : List (Ticket × Envelope υ)}
    {stage : Caller υ α} {other : Ticket}
    (h : Closer (Function.update callers ticket stage) enqueued other)
    (hstage : ∀ teardown, stage ≠ .sending (.close teardown)) : Closer callers enqueued other := by
  obtain ⟨teardown, hcaller | hmem⟩ := h
  · by_cases hother : other = ticket
    · subst hother
      rw [Function.update_self] at hcaller
      exact absurd hcaller (hstage teardown)
    · rw [Function.update_of_ne hother] at hcaller
      exact ⟨teardown, .inl hcaller⟩
  · exact ⟨teardown, .inr hmem⟩

namespace OneCloser

variable (h : OneCloser machine)

include h

/-- The same after a step that makes nobody one. -/
theorem mono (hcloser : ∀ ticket, Closer next.callers next.enqueued ticket →
      Closer machine.callers machine.enqueued ticket)
    (hclosing : next.actor.closing = machine.actor.closing) : OneCloser next where
  requested ticket hticket := by
    rw [hclosing]
    exact h.requested ticket (hcloser ticket hticket)
  single ticket other hticket hother :=
    h.single ticket other (hcloser ticket hticket) (hcloser other hother)

theorem step (hstep : Step behaviour machine next) : OneCloser next := by
  cases hstep with
  | arrives envelope =>
    refine h.mono (fun other hother => hother.of_update ?_) rfl
    cases envelope <;> nofun
  | admitted | refused | closedBefore | bounced | returned | leaves =>
    exact h.mono (fun other hother => hother.of_update nofun) rfl
  | @closes ticket teardown stage isOpen =>
    -- nobody was one before, so this is the first
    have hfirst : ∀ other, Closer (Function.update machine.callers ticket
        (.sending (.close teardown))) machine.enqueued other → other = ticket := by
      intro other hother
      by_contra hne
      obtain ⟨found, hcaller | hmem⟩ := hother
      · rw [Function.update_of_ne hne] at hcaller
        simpa [isOpen] using h.requested other ⟨found, .inl hcaller⟩
      · simpa [isOpen] using h.requested other ⟨found, .inr hmem⟩
    exact ⟨fun _ _ => rfl,
      fun one other hone hother => (hfirst one hone).trans (hfirst other hother).symm⟩
  | enqueued stage =>
    refine h.mono (fun other hother => ?_) rfl
    obtain ⟨found, hcaller | hmem⟩ := hother.of_update nofun
    · exact ⟨found, .inl hcaller⟩
    · rcases List.mem_append.1 hmem with hold | hnew
      · exact ⟨found, .inr hold⟩
      · cases List.mem_singleton.1 hnew
        exact ⟨found, .inl stage⟩
  | _ => exact h.mono (fun _ => id) rfl

end OneCloser

/-- Behind a teardown the worker does no more work. -/
structure TeardownLast (ran : List (Ran υ α)) (worker : Worker υ α) : Prop where
  ended : ∀ one ∈ ran, ∀ teardown, one.envelope = .close teardown → worker.Over
  last : ∀ front one later teardown, ran = front ++ one :: later →
    one.envelope = .close teardown → later = []

namespace TeardownLast

variable {worker worker' : Worker υ α}

theorem mono (h : TeardownLast ran worker) (hover : worker.Over → worker'.Over) :
    TeardownLast ran worker' :=
  ⟨fun one hone teardown hclose => hover (h.ended one hone teardown hclose), h.last⟩

/-- Whatever comes to its end while there is work to do comes behind other units. -/
theorem concat (h : TeardownLast ran worker) (hwork : ¬worker.Over) {new : Ran υ α}
    (hover : ∀ teardown, new.envelope = .close teardown → worker'.Over) :
    TeardownLast (ran ++ [new]) worker' where
  ended one hone teardown hclose := by
    rcases List.mem_append.1 hone with hold | hnew
    · exact absurd (h.ended one hold teardown hclose) hwork
    · rw [List.mem_singleton.1 hnew] at hclose
      exact hover teardown hclose
  last front one later teardown hran hclose := by
    rcases List.eq_nil_or_concat later with rfl | ⟨rest, final, rfl⟩
    · rfl
    · -- otherwise the teardown would have been run before
      rw [List.concat_eq_append, ← List.cons_append, ← List.append_assoc] at hran
      obtain ⟨hrest, -⟩ := List.append_inj' hran rfl
      have hone : one ∈ ran := by
        rw [hrest]
        exact List.mem_append_right _ List.mem_cons_self
      exact absurd (h.ended one hone teardown hclose) hwork

theorem step (h : TeardownLast machine.ran machine.worker) (hstep : Step behaviour machine next) :
    TeardownLast next.ran next.worker := by
  cases hstep with
  | takes stage | drops stage | begins stage | replies stage | counts stage =>
    refine h.mono fun hover => ?_
    rw [stage] at hover
    cases hover
  | quits | finishes | shuts | stops => exact h.mono fun _ => trivial
  | ends stage => exact h.concat (by rw [stage]; exact id) nofun
  | tearsDown stage => exact h.concat (by rw [stage]; exact id) fun _ _ => trivial
  | _ => exact h

end TeardownLast

/-! ## What closing leaves undone -/

namespace Step

variable (h : Step behaviour machine next)

include h

/-- Whoever requested closing cannot take it back. -/
theorem closing_of (hclosing : machine.actor.closing = true) : next.actor.closing = true := by
  cases h with
  | closes => rfl
  | _ => exact hclosing

/-- Once closing was requested no unit of work is begun any more. -/
theorem run_mem_begun (hclosing : machine.actor.closing = true) {ticket : Ticket} {unit : υ}
    (hmem : (ticket, .run unit) ∈ next.begun) : (ticket, .run unit) ∈ machine.begun := by
  cases h with
  | begins stage isOpen =>
    rw [hclosing] at isOpen
    cases isOpen
  | takes | quits | drops | replies | counts | finishes | shuts | stops =>
    exact mem_begun_of_mem_ran hmem
  | ends stage =>
    simpa [Machine.begun, stage, Worker.inService, Ran.submission] using hmem
  | tearsDown stage =>
    simpa [Machine.begun, stage, Worker.inService, Ran.submission] using hmem
  | _ => exact hmem

/-- A worker that is through leaves the resource alone. -/
theorem of_over (hover : machine.worker.Over) : next.worker.Over ∧ next.ran = machine.ran ∧
    next.begun = machine.begun ∧ next.resource = machine.resource := by
  cases h with
  | takes stage | drops stage | begins stage | goesOn stage | ends stage | replies stage
  | counts stage | tearsDown stage | quits stage =>
    rw [stage] at hover
    cases hover
  | finishes stage | shuts stage | stops stage =>
    refine ⟨trivial, rfl, ?_, rfl⟩
    rw [Machine.begun, Machine.begun, stage]
    rfl
  | _ => exact ⟨hover, rfl, rfl, rfl⟩

end Step

end CommitLog.Actor.Contention
