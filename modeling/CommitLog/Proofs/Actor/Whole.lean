import CommitLog.Proofs.Actor.Machine

/-!
# Operations of an actor as rows of steps

Where nobody gets in between, the accesses of a caller come to what `submit` and `requestClose` say
in one go, and those of the worker to what `settle` says: the actor and its resource are left as
they leave them. So the machine is about the same actor, and its steps do come about.
-/

namespace CommitLog.Actor.Contention

variable {ρ υ α : Type} {behaviour : Behaviour ρ υ α} {machine : Machine ρ υ α} {ticket : Ticket}

open Relation (ReflTransGen)

/-! ## Callers -/

/-- A caller that does something to the actor goes on from where it was. -/
theorem goto_with (machine : Machine ρ υ α) (actor : Actor υ α)
    (enqueued : List (Ticket × Envelope υ)) (ticket : Ticket) (stage next : Caller υ α) :
    ({ machine.goto ticket stage with actor, enqueued } : Machine ρ υ α).goto ticket next
      = { machine with actor, enqueued }.goto ticket next := by
  simp [Machine.goto]

theorem callers_goto (machine : Machine ρ υ α) (ticket : Ticket) (stage : Caller υ α) :
    (machine.goto ticket stage).callers ticket = stage := Function.update_self ..

theorem leads_refused (machine : Machine ρ υ α) {unit : υ}
    (closing : machine.actor.closing = true) :
    Leads behaviour (machine.goto ticket (.checking unit))
      ({ machine with actor := machine.actor.refuse ticket }.goto ticket .awaiting) := by
  have hstep : Step behaviour (machine.goto ticket (.checking unit)) _ :=
    .refused (callers_goto ..) closing
  rw [goto_with] at hstep
  exact .single hstep

theorem leads_closedBefore (machine : Machine ρ υ α) {teardown : υ}
    (closing : machine.actor.closing = true) :
    Leads behaviour (machine.goto ticket (.swapping teardown))
      ({ machine with actor := machine.actor.refuse ticket }.goto ticket .awaiting) := by
  have hstep : Step behaviour (machine.goto ticket (.swapping teardown)) _ :=
    .closedBefore (callers_goto ..) closing
  rw [goto_with] at hstep
  exact .single hstep

theorem leads_enqueued (machine : Machine ρ υ α) {envelope : Envelope υ}
    (receives : machine.worker.Receives)
    (room : machine.actor.waiting.length < machine.actor.depth) :
    Leads behaviour (machine.goto ticket (.sending envelope))
      ({ machine with
        actor := { machine.actor with waiting := machine.actor.waiting ++ [(ticket, envelope)] }
        enqueued := machine.enqueued ++ [(ticket, envelope)] }.goto ticket .awaiting) := by
  have hstep : Step behaviour (machine.goto ticket (.sending envelope)) _ :=
    .enqueued (callers_goto ..) receives room
  rw [goto_with] at hstep
  exact .single hstep

theorem with_closing (actor : Actor υ α) (h : actor.closing = true) :
    { actor with closing := true } = actor := by
  rw [← h]

/-- The machine when a submission was made. -/
def Machine.submitted (machine : Machine ρ υ α) (actor : Actor υ α) (envelope : Envelope υ) :
    Machine ρ υ α :=
  { machine with
    actor
    calls := machine.calls ++ [envelope]
    enqueued := machine.enqueued ++
      if machine.actor.closing then [] else [(machine.actor.submitted, envelope)] }.goto
    machine.actor.submitted .awaiting

section Submission

variable (held : machine.released = false) (receives : machine.worker.Receives)
  (room : machine.actor.waiting.length < machine.actor.depth)

include held receives room

/-- **A caller that nobody gets in the way of submits as the actor says.** -/
theorem leads_submit (unit : υ) : Leads behaviour machine
    (machine.submitted (machine.actor.submit unit).2 (.run unit)) := by
  let called : Machine ρ υ α := { machine with
    actor := { machine.actor with submitted := machine.actor.submitted + 1 }
    calls := machine.calls ++ [.run unit] }
  have harrives : Step behaviour machine (called.goto _ (.checking unit)) :=
    .arrives (.run unit) held
  refine .head harrives ?_
  unfold Machine.submitted Actor.submit Actor.enqueue
  by_cases hclosing : machine.actor.closing = true
  · rw [if_pos hclosing, if_pos hclosing, List.append_nil]
    exact leads_refused called hclosing
  · rw [if_neg hclosing, if_neg hclosing]
    have hadmitted : Step behaviour (called.goto machine.actor.submitted (.checking unit)) _ :=
      .admitted (callers_goto ..) (eq_false_of_ne_true hclosing)
    rw [goto_with] at hadmitted
    exact .head hadmitted (leads_enqueued called receives room)

/-- **So does one that requests closing.** -/
theorem leads_requestClose (teardown : υ) : Leads behaviour machine
    (machine.submitted (machine.actor.requestClose teardown).2 (.close teardown)) := by
  let called : Machine ρ υ α := { machine with
    actor := { machine.actor with submitted := machine.actor.submitted + 1 }
    calls := machine.calls ++ [.close teardown] }
  have harrives : Step behaviour machine (called.goto _ (.swapping teardown)) :=
    .arrives (.close teardown) held
  refine .head harrives ?_
  unfold Machine.submitted Actor.requestClose Actor.enqueue
  by_cases hclosing : machine.actor.closing = true
  · rw [if_pos hclosing, if_pos hclosing, List.append_nil]
    have hrefused : Leads behaviour
        (called.goto machine.actor.submitted (.swapping teardown)) _ :=
      leads_closedBefore called hclosing
    rwa [← with_closing (called.actor.refuse machine.actor.submitted) hclosing] at hrefused
  · rw [if_neg hclosing, if_neg hclosing]
    have hcloses : Step behaviour (called.goto machine.actor.submitted (.swapping teardown)) _ :=
      .closes (callers_goto ..) (eq_false_of_ne_true hclosing)
    rw [goto_with] at hcloses
    exact .head hcloses (leads_enqueued
      { called with actor := { called.actor with closing := true } } receives room)

end Submission

/-! ## The worker -/

/-- The worker has nothing in its hands, or a unit that has to wait. -/
def Poised (worker : Worker υ α) (serving : Option (Ticket × υ)) : Prop :=
  worker = .idle ∧ serving = none ∨
    ∃ ticket unit left, worker = .serving ticket unit ∧ serving = some (ticket, left)

/-- The machine goes on to one where the actor and its resource are these. -/
def ComesTo (behaviour : Behaviour ρ υ α) (machine : Machine ρ υ α) (result : Actor υ α × ρ) :
    Prop :=
  ∃ worker ran, Poised worker result.1.serving ∧ Leads behaviour machine
    { machine with actor := result.1, resource := result.2, worker, ran }

/-- A unit that has come to its end is answered and counted. -/
theorem leads_replying (machine : Machine ρ υ α) {outcome : Except Panic α}
    (replying : machine.worker = .replying ticket outcome) : Leads behaviour machine
      { machine with
        actor := { machine.actor.answer ticket (replyTo machine.actor.name outcome) with
          completed := machine.actor.completed + 1 }
        worker := .idle } :=
  .head (.replies replying) (.single (.counts rfl))

/-- The worker runs a piece of the unit that it has begun. -/
theorem comesTo_settleUnit (behaviour : Behaviour ρ υ α) (machine : Machine ρ υ α)
    {unit left : υ} (serving : machine.worker = .serving ticket unit)
    (isLeft : machine.actor.serving = some (ticket, left)) :
    ComesTo behaviour machine
      (({ machine.actor with serving := none } : Actor υ α).settleUnit ticket
        (behaviour.run left machine.resource).1, (behaviour.run left machine.resource).2) := by
  rcases hruns : behaviour.run left machine.resource with ⟨served, resource⟩
  let ended (outcome : Except Panic α) : Machine ρ υ α := { machine with
    actor := { machine.actor with serving := none }
    resource
    worker := .replying ticket outcome
    ran := machine.ran ++ [⟨ticket, .run unit, outcome⟩] }
  cases served with
  | done value =>
    have hended : Step behaviour machine (ended (.ok value)) := .ends serving isLeft hruns rfl
    exact ⟨.idle, (ended (.ok value)).ran, .inl ⟨rfl, rfl⟩,
      .head hended (leads_replying (ended (.ok value)) rfl)⟩
  | panicked panic =>
    have hended : Step behaviour machine (ended (.error panic)) := .ends serving isLeft hruns rfl
    exact ⟨.idle, (ended (.error panic)).ran, .inl ⟨rfl, rfl⟩,
      .head hended (leads_replying (ended (.error panic)) rfl)⟩
  | waiting rest =>
    exact ⟨machine.worker, machine.ran, .inr ⟨ticket, unit, rest, serving, rfl⟩,
      .single (.goesOn serving isLeft hruns)⟩

/-- **The worker goes on as the actor says.** -/
theorem comesTo_resume (behaviour : Behaviour ρ υ α) (machine : Machine ρ υ α)
    (poised : Poised machine.worker machine.actor.serving) :
    ComesTo behaviour machine (machine.actor.resume behaviour machine.resource) := by
  unfold Actor.resume
  rcases poised with ⟨hidle, hnone⟩ | ⟨ticket, unit, left, hserving, hleft⟩
  · rw [hnone]
    exact ⟨machine.worker, machine.ran, .inl ⟨hidle, hnone⟩, .refl⟩
  · rw [hleft]
    exact comesTo_settleUnit behaviour machine hserving hleft

/-- It begins a unit of work as the actor says. -/
theorem comesTo_begin (behaviour : Behaviour ρ υ α) (machine : Machine ρ υ α) {unit : υ}
    (holding : machine.worker = .holding ticket (.run unit))
    (nothing : machine.actor.serving = none) :
    ComesTo behaviour machine
      (machine.actor.begin behaviour ticket (.run unit) machine.resource) := by
  show ComesTo behaviour machine (if machine.actor.closing = true then _ else _)
  split
  next hclosing =>
    exact ⟨.idle, machine.ran, .inl ⟨rfl, nothing⟩, .single (.drops holding hclosing)⟩
  next hopen =>
    have hactor : { machine.actor with serving := none } = machine.actor := by rw [← nothing]
    obtain ⟨worker, ran, hpoised, hleads⟩ := comesTo_settleUnit behaviour
      { machine with
        actor := { machine.actor with serving := some (ticket, unit) }
        worker := .serving ticket unit } rfl rfl
    rw [← hactor]
    exact ⟨worker, ran, hpoised, .head (.begins holding (eq_false_of_ne_true hopen)) hleads⟩

theorem settleUnit_waiting (actor : Actor υ α) (waiting : List (Ticket × Envelope υ))
    (served : Served υ α) :
    ({ actor with waiting } : Actor υ α).settleUnit ticket served
      = { actor.settleUnit ticket served with waiting } := by
  cases served <;> rfl

/-- What the worker does to a unit does not depend on the mailbox. -/
theorem begin_waiting (actor : Actor υ α) (waiting : List (Ticket × Envelope υ)) (unit : υ)
    (resource : ρ) :
    ({ actor with waiting } : Actor υ α).begin behaviour ticket (.run unit) resource
      = ({ (actor.begin behaviour ticket (.run unit) resource).1 with waiting },
          (actor.begin behaviour ticket (.run unit) resource).2) := by
  by_cases hclosing : actor.closing = true
  · simp [Actor.begin, hclosing, Actor.refuse, Actor.answer]
  · simp only [Actor.begin, if_neg hclosing, settleUnit_waiting]

theorem waiting_resume (actor : Actor υ α) (resource : ρ) :
    (actor.resume behaviour resource).1.waiting = actor.waiting := by
  unfold Actor.resume
  split
  next => rfl
  next ticket unit _ =>
    show (settleUnit _ ticket (behaviour.run unit resource).1).waiting = _
    cases (behaviour.run unit resource).1 <;> rfl

/-- It works off units of work as the actor says. -/
theorem comesTo_work (behaviour : Behaviour ρ υ α) (machine : Machine ρ υ α)
    (waiting : List (Ticket × Envelope υ)) (actor : Actor υ α) (resource : ρ)
    (units : ∀ submission ∈ waiting, ∃ unit, submission.2 = .run unit)
    (poised : Poised machine.worker actor.serving) :
    ComesTo behaviour { machine with actor := { actor with waiting }, resource }
      (work behaviour waiting actor resource) := by
  induction waiting generalizing machine actor resource with
  | nil => exact ⟨machine.worker, machine.ran, poised, .refl⟩
  | cons first later ih =>
    obtain ⟨ticket, envelope⟩ := first
    obtain ⟨unit, rfl⟩ : ∃ unit, envelope = .run unit := units _ List.mem_cons_self
    rw [work]
    rcases poised with ⟨hidle, hnone⟩ | hserving
    · rw [if_neg (by simp [hnone])]
      have hbegin := comesTo_begin behaviour
        { machine with
          actor := { actor with waiting := later }
          resource
          worker := .holding ticket (.run unit) } rfl hnone
      rw [begin_waiting] at hbegin
      obtain ⟨worker, ran, hpoised, hleads⟩ := hbegin
      obtain ⟨last, rest, hlast, hmore⟩ := ih { machine with worker, ran }
        (actor.begin behaviour ticket (.run unit) resource).1
        (actor.begin behaviour ticket (.run unit) resource).2
        (fun submission hmem => units submission (List.mem_cons_of_mem _ hmem)) hpoised
      exact ⟨last, rest, hlast, .head (.takes hidle rfl) (hleads.trans hmore)⟩
    · obtain ⟨other, begun, left, hworker, hleft⟩ := hserving
      rw [if_pos (by simp [hleft])]
      exact ⟨machine.worker, machine.ran, .inr ⟨other, begun, left, hworker, hleft⟩, .refl⟩

/-- **Without a request to close the worker settles as the actor says.** -/
theorem comesTo_settle (poised : Poised machine.worker machine.actor.serving)
    (units : ∀ submission ∈ machine.actor.waiting, ∃ unit, submission.2 = .run unit) :
    ComesTo behaviour machine (machine.actor.settle behaviour machine.resource) := by
  obtain ⟨worker, ran, hpoised, hleads⟩ := comesTo_resume behaviour machine poised
  obtain ⟨last, rest, hlast, hmore⟩ := comesTo_work behaviour { machine with worker, ran }
    (machine.actor.resume behaviour machine.resource).1.waiting
    (machine.actor.resume behaviour machine.resource).1
    (machine.actor.resume behaviour machine.resource).2
    (by rw [waiting_resume]; exact units) hpoised
  exact ⟨last, rest, hlast, hleads.trans hmore⟩

/-- **It runs the teardown as the actor says**, where nothing is behind it. -/
theorem leads_teardown {teardown : υ} (holding : machine.worker = .holding ticket (.close teardown))
    (last : machine.actor.waiting = []) : ∃ ran, Leads behaviour machine
      { machine with
        actor := (machine.actor.begin behaviour ticket (.close teardown) machine.resource).1
        resource := (machine.actor.begin behaviour ticket (.close teardown) machine.resource).2
        worker := .stopped
        ran } := by
  rcases hruns : behaviour.teardown teardown machine.resource with ⟨value, resource⟩
  refine ⟨machine.ran ++ [⟨ticket, .close teardown, .ok value⟩], ?_⟩
  refine .head (.tearsDown holding hruns) (.head (.finishes rfl) (.head (.shuts rfl) ?_))
  refine .head (.stops rfl last) ?_
  simp only [Actor.begin, hruns]
  exact .refl

end CommitLog.Actor.Contention
