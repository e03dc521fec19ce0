import CommitLog.Proofs.Actor.Answers
import CommitLog.Proofs.Actor.Fold
import CommitLog.Proofs.Actor.Whole

/-!
# Each unit is served once, and nothing behind the teardown

What is kept by every step adds up to what callers of an actor can rely on. Units run one at a
time, in the order of the mailbox, and a caller is told exactly what became of its own. A request
to close lets the unit end that the worker has begun, and no other begin; the one teardown that
runs is the last that the resource sees.
-/

namespace CommitLog.Actor.Contention

variable {ρ υ α : Type} {behaviour : Behaviour ρ υ α} {name : String} {depth : Nat} {initial : ρ}
  {machine next after : Machine ρ υ α} {ticket : Ticket} {reply : Except Error α}
  {one other : Ran υ α} {teardown : υ}

/-! ## Answers stay -/

theorem mem_of_answer? (h : machine.actor.answer? ticket = some reply) :
    (ticket, reply) ∈ machine.actor.answers := by
  obtain ⟨front, later, hanswers, -⟩ := List.lookup_eq_some_iff.1 h
  rw [hanswers]
  exact List.mem_append_right _ List.mem_cons_self

theorem Step.answers_prefix (h : Step behaviour machine next) :
    machine.actor.answers <+: next.actor.answers := by
  cases h with
  | refused | closedBefore | bounced | drops | replies | drains | stops =>
    exact List.prefix_append ..
  | _ => exact List.prefix_rfl

theorem Step.answer?_eq (h : Step behaviour machine next)
    (hanswer : machine.actor.answer? ticket = some reply) :
    next.actor.answer? ticket = some reply := by
  obtain ⟨later, hlater⟩ := h.answers_prefix
  unfold answer? at hanswer ⊢
  rw [← hlater, List.lookup_append, hanswer, Option.some_or]

theorem Leads.answer?_eq (h : Leads behaviour machine after)
    (hanswer : machine.actor.answer? ticket = some reply) :
    after.actor.answer? ticket = some reply := by
  induction h with
  | refl => exact hanswer
  | tail _ hstep ih => exact hstep.answer?_eq ih

theorem Step.name_eq (h : Step behaviour machine next) :
    next.actor.name = machine.actor.name := by
  cases h <;> rfl

/-- What a call has returned is the answer to its submission. -/
def Returned (machine : Machine ρ υ α) : Prop :=
  ∀ ticket reply, machine.callers ticket = .returned reply →
    machine.actor.answer? ticket = some reply

theorem returned_of_update {callers : Ticket → Caller υ α} {stage : Caller υ α} {caller : Ticket}
    (h : Function.update callers caller stage ticket = .returned reply)
    (hstage : ∀ reply, stage ≠ .returned reply) : callers ticket = .returned reply := by
  by_cases hticket : ticket = caller
  · rw [hticket, Function.update_self] at h
    exact absurd h (hstage reply)
  · rwa [Function.update_of_ne hticket] at h

theorem Returned.step (h : Returned machine) (hstep : Step behaviour machine next) :
    Returned next := by
  intro ticket reply hreturned
  have hkeeps : machine.callers ticket = .returned reply →
      next.actor.answer? ticket = some reply := fun hbefore =>
    hstep.answer?_eq (h ticket reply hbefore)
  cases hstep with
  | @returned caller found _ answered =>
    by_cases hticket : ticket = caller
    · subst hticket
      simp only [Machine.goto, Function.update_self, Caller.returned.injEq] at hreturned
      rw [← hreturned]
      exact answered
    · simp only [Machine.goto, Function.update_of_ne hticket] at hreturned
      exact hkeeps hreturned
  | arrives envelope =>
    refine hkeeps (returned_of_update hreturned ?_)
    cases envelope <;> simp [Caller.entry]
  | admitted | refused | closes | closedBefore | enqueued | bounced | leaves =>
    exact hkeeps (returned_of_update hreturned (by simp))
  | _ => exact hkeeps hreturned

/-! ## What every state keeps -/

/-- The mailbox holds no more than it may. -/
def Bounded (depth : Nat) (machine : Machine ρ υ α) : Prop :=
  machine.actor.depth = depth ∧ machine.actor.waiting.length ≤ depth

theorem Bounded.step (h : Bounded depth machine) (hstep : Step behaviour machine next) :
    Bounded depth next := by
  obtain ⟨hdepth, hwaiting⟩ := h
  cases hstep with
  | enqueued _ _ room =>
    refine ⟨hdepth, ?_⟩
    rw [hdepth] at room
    rw [Machine.goto, List.length_append]
    exact room
  | takes _ first | drains _ first =>
    rw [first] at hwaiting
    exact ⟨hdepth, Nat.le_of_succ_le hwaiting⟩
  | _ => exact ⟨hdepth, hwaiting⟩

/-- What every state of an actor keeps. -/
structure Sound (behaviour : Behaviour ρ υ α) (depth : Nat) (initial : ρ)
    (machine : Machine ρ υ α) : Prop where
  kept : machine.Kept
  order : InOrder machine
  explained : Explained machine
  closer : OneCloser machine
  last : TeardownLast machine.ran machine.worker
  folded : Folded behaviour initial machine
  returned : Returned machine
  bounded : Bounded (max depth 1) machine

theorem Sound.step (h : Sound behaviour depth initial machine)
    (hstep : Step behaviour machine next) : Sound behaviour depth initial next where
  kept := h.kept.step hstep
  order := h.order.step hstep
  explained := h.explained.step h.kept h.order hstep
  closer := h.closer.step hstep
  last := h.last.step hstep
  folded := h.folded.step hstep
  returned := h.returned.step hstep
  bounded := h.bounded.step hstep

theorem Reachable.sound (h : Reachable behaviour name depth initial machine) :
    Sound behaviour depth initial machine := by
  induction h with
  | start =>
    exact ⟨kept_start .., inOrder_start .., explained_start .., oneCloser_start ..,
      ⟨nofun, fun front _ _ _ hran => by simp [Machine.start] at hran⟩, folded_start .., nofun,
      rfl, Nat.zero_le _⟩
  | step _ hstep ih => exact ih.step hstep

theorem Reachable.name_eq (h : Reachable behaviour name depth initial machine) :
    machine.actor.name = name := by
  induction h with
  | start => rfl
  | step _ hstep ih => rw [hstep.name_eq, ih]

/-! ## What became of a submission -/

namespace Sound

variable (h : Sound behaviour depth initial machine)

include h

theorem begun_distinct : (machine.begun.map Prod.fst).Nodup :=
  h.kept.tidy.once.sublist (h.order.sublist.map _)

theorem ran_distinct : (machine.ran.map Ran.ticket).Nodup := by
  have hbegun := h.begun_distinct
  rw [Machine.begun, List.map_append, List.map_map] at hbegun
  exact (List.nodup_append.1 hbegun).1

/-- What ran under a ticket is what was submitted under it. -/
theorem calls_of_ran (hone : one ∈ machine.ran) :
    machine.calls[one.ticket]? = some one.envelope := by
  have hbegun : one.submission ∈ machine.begun :=
    List.mem_append_left _ (List.mem_map_of_mem hone)
  exact (h.kept.tidy.kept _ (h.order.sublist.subset hbegun)).2

theorem eq_of_ran (hone : one ∈ machine.ran) (hother : other ∈ machine.ran)
    (hticket : one.ticket = other.ticket) : one = other :=
  List.inj_on_of_nodup_map h.ran_distinct hone hother hticket

/-- Whoever has an answer was refused and had nothing run, or is told how it ended. -/
theorem answer_cases (hanswer : machine.actor.answer? ticket = some reply) :
    reply = .error (.closed machine.actor.name) ∧
        (∀ submission ∈ machine.begun, submission.1 ≠ ticket) ∨
      ∃ one ∈ machine.ran, one.ticket = ticket ∧ reply = replyTo machine.actor.name one.outcome :=
  h.explained.answers _ (mem_of_answer? hanswer)

/-- The answer to what has come to its end tells how. -/
theorem answer_of_ran (hone : one ∈ machine.ran)
    (hanswer : machine.actor.answer? one.ticket = some reply) :
    reply = replyTo machine.actor.name one.outcome := by
  rcases h.answer_cases hanswer with ⟨-, hnot⟩ | ⟨found, hfound, hticket, hreply⟩
  · exact absurd rfl (hnot one.submission (List.mem_append_left _ (List.mem_map_of_mem hone)))
  · rw [hreply, h.eq_of_ran hone hfound hticket.symm]

/-- Two that have requested closing, and of which something was run, are one. -/
theorem eq_of_teardown {teardown' : υ} (hone : one ∈ machine.ran) (hother : other ∈ machine.ran)
    (hclose : one.envelope = .close teardown) (hclose' : other.envelope = .close teardown') :
    one = other := by
  have hcloser : ∀ found ∈ machine.ran, ∀ teardown, found.envelope = .close teardown →
      Closer machine.callers machine.enqueued found.ticket := by
    intro found hfound teardown hfoundClose
    refine ⟨teardown, .inr (h.order.sublist.subset (List.mem_append_left _ ?_))⟩
    rw [← hfoundClose]
    exact List.mem_map_of_mem hfound
  exact h.eq_of_ran hone hother
    (h.closer.single _ _ (hcloser one hone _ hclose) (hcloser other hother _ hclose'))

end Sound

theorem replyTo_ne_closed (name other : String) (outcome : Except Panic α) :
    replyTo name outcome ≠ .error (.closed other) := by
  cases outcome <;> nofun

/-! ## What callers can rely on -/

/-- Every unit is served once and in its turn, and nothing is behind the teardown. -/
structure Orderly (behaviour : Behaviour ρ υ α) (name : String) (depth : Nat) (initial : ρ)
    (machine : Machine ρ υ α) : Prop where
  /-- The mailbox holds no more than it may. -/
  room : machine.actor.waiting.length ≤ max depth 1
  /-- The worker begins submissions in the order in which they were put into the mailbox. -/
  order : machine.begun.Sublist machine.enqueued
  /-- One at a time: all that were begun have come to their end, one perhaps apart. -/
  alone : machine.begun = machine.ran.map Ran.submission ++ machine.worker.inService ∧
    machine.worker.inService.length ≤ 1
  /-- Each of them once, and as it was submitted. -/
  once : (machine.begun.map Prod.fst).Nodup ∧
    ∀ submission ∈ machine.begun, machine.calls[submission.1]? = some submission.2
  /-- The resource is what those that came to their end have made of it one after the other, and
  the one in service so far. -/
  resource : ∃ settled, Folds behaviour machine.ran initial settled ∧
    (∀ other, Folds behaviour machine.ran initial other → other = settled) ∧
    Midway behaviour machine.actor.serving settled machine.resource machine.worker
  /-- A call returns the answer to its submission. -/
  returned : ∀ ticket reply, machine.callers ticket = .returned reply →
    machine.actor.answer? ticket = some reply
  /-- A unit is answered with a value or a panic if and only if it has run, once. -/
  answered : ∀ ticket unit reply, machine.calls[ticket]? = some (.run unit) →
    machine.actor.answer? ticket = some reply →
    (((∃ value, reply = .ok value) ∨ ∃ panic, reply = .error (.panicked name panic)) ↔
      (machine.ran.map Ran.ticket).count ticket = 1)
  /-- The answer is what it came to. -/
  told : ∀ one ∈ machine.ran, ∀ reply, machine.actor.answer? one.ticket = some reply →
    reply = replyTo name one.outcome
  /-- A submission is refused if and only if it is never begun. -/
  refused : ∀ ticket reply, machine.actor.answer? ticket = some reply →
    (reply = .error (.closed name) ↔
      ∀ after, Leads behaviour machine after → ∀ submission ∈ after.begun, submission.1 ≠ ticket)
  /-- Once closing was requested no unit is begun that was not begun before. -/
  late : machine.actor.closing = true → ∀ after, Leads behaviour machine after →
    ∀ ticket unit, (ticket, .run unit) ∈ after.begun → (ticket, .run unit) ∈ machine.begun
  /-- No teardown runs but one. -/
  single : ∀ one ∈ machine.ran, ∀ other ∈ machine.ran, ∀ teardown teardown',
    one.envelope = .close teardown → other.envelope = .close teardown' → one = other
  /-- The teardown is the last that the worker has to do with the resource. -/
  last : ∀ one ∈ machine.ran, ∀ teardown, one.envelope = .close teardown →
    (∃ front, machine.ran = front ++ [one]) ∧ machine.worker.inService = [] ∧
      ∀ after, Leads behaviour machine after →
        after.begun = machine.begun ∧ after.resource = machine.resource
  /-- A request to close is refused, or answered when its teardown has run. -/
  closed : ∀ ticket teardown reply, machine.calls[ticket]? = some (.close teardown) →
    machine.actor.answer? ticket = some reply → reply = .error (.closed name) ∨
      ∃ value, reply = .ok value ∧ ⟨ticket, .close teardown, .ok value⟩ ∈ machine.ran
  /-- No request to close has another answer but one. -/
  granted : ∀ ticket other teardown teardown' value value',
    machine.calls[ticket]? = some (.close teardown) →
    machine.calls[other]? = some (.close teardown') →
    machine.actor.answer? ticket = some (.ok value) →
    machine.actor.answer? other = some (.ok value') → ticket = other

namespace Reachable

variable (h : Reachable behaviour name depth initial machine)

include h

/-- A unit has a value or a panic for an answer if and only if it has run. -/
theorem answered (hanswer : machine.actor.answer? ticket = some reply) :
    ((∃ value, reply = .ok value) ∨ ∃ panic, reply = .error (.panicked name panic)) ↔
      (machine.ran.map Ran.ticket).count ticket = 1 := by
  have hsound := h.sound
  have hcases := hsound.answer_cases hanswer
  rw [h.name_eq] at hcases
  constructor
  · intro hreply
    rcases hcases with ⟨rfl, -⟩ | ⟨one, hone, rfl, -⟩
    · rcases hreply with ⟨value, hvalue⟩ | ⟨panic, hpanic⟩
      · cases hvalue
      · cases hpanic
    · exact List.count_eq_one_of_mem hsound.ran_distinct (List.mem_map_of_mem hone)
  · intro hcount
    have hmem : ticket ∈ machine.ran.map Ran.ticket := List.count_pos_iff.1 (by omega)
    obtain ⟨one, hone, rfl⟩ := List.mem_map.1 hmem
    rw [hsound.answer_of_ran hone hanswer, h.name_eq]
    cases one.outcome with
    | ok value => exact .inl ⟨value, rfl⟩
    | error panic => exact .inr ⟨panic, rfl⟩

/-- A submission is refused if and only if it is never begun. -/
theorem refused (hanswer : machine.actor.answer? ticket = some reply) :
    reply = .error (.closed name) ↔
      ∀ after, Leads behaviour machine after → ∀ submission ∈ after.begun,
        submission.1 ≠ ticket := by
  constructor
  · rintro rfl after hleads
    have hafter := h.leads hleads
    -- the refusal is still there, and it would be wrong
    rcases hafter.sound.answer_cases (hleads.answer?_eq hanswer) with ⟨-, hnot⟩ | ⟨one, -, -, hran⟩
    · exact hnot
    · exact absurd hran.symm (replyTo_ne_closed after.actor.name name one.outcome)
  · intro hnever
    rcases h.sound.answer_cases hanswer with ⟨hreply, -⟩ | ⟨one, hone, hticket, -⟩
    · rw [hreply, h.name_eq]
    · have hbegun : one.submission ∈ machine.begun :=
        List.mem_append_left _ (List.mem_map_of_mem hone)
      exact absurd hticket (hnever machine .refl _ hbegun)

/-- A request to close is refused, or answered when its teardown has run. -/
theorem closed (hcall : machine.calls[ticket]? = some (.close teardown))
    (hanswer : machine.actor.answer? ticket = some reply) : reply = .error (.closed name) ∨
      ∃ value, reply = .ok value ∧ ⟨ticket, .close teardown, .ok value⟩ ∈ machine.ran := by
  have hsound := h.sound
  rcases hsound.answer_cases hanswer with ⟨hreply, -⟩ | ⟨⟨_, ran, outcome⟩, hone, rfl, hreply⟩
  · exact .inl (by rw [hreply, h.name_eq])
  · have hcalled := hcall.symm.trans (hsound.calls_of_ran hone)
    obtain rfl : .close teardown = ran := Option.some.inj hcalled
    obtain ⟨_, hfolds, -⟩ := hsound.folded
    obtain ⟨_, _, value, -, houtcome⟩ := hfolds.acts hone
    obtain rfl : outcome = .ok value := houtcome
    exact .inr ⟨value, hreply, hone⟩

/-- No two requests to close are answered with a value. -/
theorem granted {other : Ticket} {teardown' : υ} {value value' : α}
    (hcall : machine.calls[ticket]? = some (.close teardown))
    (hcall' : machine.calls[other]? = some (.close teardown'))
    (hanswer : machine.actor.answer? ticket = some (.ok value))
    (hanswer' : machine.actor.answer? other = some (.ok value')) : ticket = other := by
  rcases h.closed hcall hanswer with hclosed | ⟨_, -, hran⟩
  · cases hclosed
  · rcases h.closed hcall' hanswer' with hclosed | ⟨_, -, hran'⟩
    · cases hclosed
    · exact congrArg Ran.ticket (h.sound.eq_of_teardown hran hran' rfl rfl)

omit h

/-- Once closing was requested no unit is begun that was not begun before. -/
theorem run_mem_begun (hclosing : machine.actor.closing = true)
    (hleads : Leads behaviour machine after) :
    after.actor.closing = true ∧ ∀ ticket unit, (ticket, .run unit) ∈ after.begun →
      (ticket, .run unit) ∈ machine.begun := by
  induction hleads with
  | refl => exact ⟨hclosing, fun _ _ => id⟩
  | tail _ hstep ih =>
    exact ⟨hstep.closing_of ih.1, fun ticket unit hmem =>
      ih.2 ticket unit (hstep.run_mem_begun ih.1 hmem)⟩

/-- A worker that is through leaves the resource alone for ever. -/
theorem of_over (hover : machine.worker.Over) (hleads : Leads behaviour machine after) :
    after.worker.Over ∧ after.begun = machine.begun ∧ after.resource = machine.resource := by
  induction hleads with
  | refl => exact ⟨hover, rfl, rfl⟩
  | tail _ hstep ih =>
    obtain ⟨hstays, -, hbegun, hresource⟩ := hstep.of_over ih.1
    exact ⟨hstays, hbegun.trans ih.2.1, hresource.trans ih.2.2⟩

end Reachable

/-- **An actor serves each unit once and in order, and nothing behind the teardown.** However many
callers there are, and in whatever order they and the worker go on. -/
theorem each_unit_is_served_once (h : Reachable behaviour name depth initial machine) :
    Orderly behaviour name depth initial machine := by
  have hsound := h.sound
  obtain ⟨settled, hfolds, hmidway⟩ := hsound.folded
  exact {
    room := hsound.bounded.2
    order := hsound.order.sublist
    alone := ⟨rfl, by cases machine.worker <;> simp [Worker.inService]⟩
    once := ⟨hsound.begun_distinct, fun submission hmem =>
      (hsound.kept.tidy.kept _ (hsound.order.sublist.subset hmem)).2⟩
    resource := ⟨settled, hfolds, fun other hother => hother.unique hfolds, hmidway⟩
    returned := hsound.returned
    answered := fun ticket unit reply _ hanswer => h.answered hanswer
    told := fun one hone reply hanswer => by rw [hsound.answer_of_ran hone hanswer, h.name_eq]
    refused := fun ticket reply hanswer => h.refused hanswer
    late := fun hclosing after hleads => (Reachable.run_mem_begun hclosing hleads).2
    single := fun one hone other hother teardown teardown' hclose hclose' =>
      hsound.eq_of_teardown hone hother hclose hclose'
    last := fun one hone teardown hclose => by
      have hover := hsound.last.ended one hone teardown hclose
      obtain ⟨front, later, hran⟩ := List.append_of_mem hone
      obtain rfl := hsound.last.last front one later teardown hran hclose
      refine ⟨⟨front, hran⟩, ?_, fun after hleads => (Reachable.of_over hover hleads).2⟩
      cases hworker : machine.worker <;> rw [hworker] at hover <;> first | rfl | cases hover
    closed := fun ticket teardown reply hcall hanswer => h.closed hcall hanswer
    granted := fun ticket other teardown teardown' value value' hcall hcall' hanswer hanswer' =>
      h.granted hcall hcall' hanswer hanswer' }

/-- Units add to a number, and adding nothing is a panic, which adds ten by then. -/
def adding : Behaviour Nat Nat Nat where
  run unit number :=
    if unit = 0 then (.panicked .other, number + 10) else (.done unit, number + unit)
  teardown _ number := (number, 0)

/-- A unit panics and another one waits when closing is requested. -/
theorem each_unit_is_served_once_of_panic : ∃ machine : Machine Nat Nat Nat,
    Reachable adding "adding" 2 0 machine ∧ machine.resource = 0 ∧
    machine.actor.answer? 0 = some (.error (.panicked "adding" .other)) ∧
    machine.actor.answer? 1 = some (.error (.closed "adding")) ∧
    machine.actor.answer? 2 = some (.ok 10) ∧ (machine.ran.map Ran.ticket).count 0 = 1 ∧
    ∀ after, Leads adding machine after → ∀ submission ∈ after.begun, submission.1 ≠ 1 := by
  -- the worker has begun the first unit when closing is requested; the second one waits
  have hstart : Reachable adding "adding" 2 0 (.start "adding" 2 0) := .start
  have hsubmitted := (hstart.leads (leads_submit rfl (by trivial) (by decide) 0)).leads
    (leads_submit rfl (by trivial) (by decide) 5)
  have hbegun := (hsubmitted.step (.takes rfl rfl)).step (.begins rfl rfl)
  have hrequested := hbegun.leads (leads_requestClose rfl (by trivial) (by decide) 7)
  have hended := (hrequested.step (.ends rfl rfl rfl rfl)).leads (leads_replying _ rfl)
  have hdropped := (hended.step (.takes rfl rfl)).step (.drops rfl rfl)
  have htornDown := (hdropped.step (.takes rfl rfl)).step (.tearsDown rfl rfl)
  have hstopped := ((htornDown.step (.finishes rfl)).step (.shuts rfl)).step (.stops rfl rfl)
  have horderly := each_unit_is_served_once hstopped
  exact ⟨_, hstopped, rfl, rfl, rfl, rfl,
    (horderly.answered 0 0 _ rfl rfl).1 (.inr ⟨.other, rfl⟩), (horderly.refused 1 _ rfl).1 rfl⟩

end CommitLog.Actor.Contention
