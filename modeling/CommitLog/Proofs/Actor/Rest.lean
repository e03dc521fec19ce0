import CommitLog.Proofs.Actor.Tickets
import CommitLog.Proofs.Actor.Whole

/-!
# An actor at rest

An actor that nobody waits for serves a unit of work, or its teardown, in a row of steps of its
own, and the caller has its answer then. What the actor is left as is what `settle` says.
-/

namespace CommitLog.Actor.Contention

open Relation (TransGen)

variable {ρ υ α : Type} {behaviour : Behaviour ρ υ α} {machine next : Machine ρ υ α}
  {ticket : Ticket} {resource : ρ} {value : α}

theorem Machine.Kept.leads (h : machine.Kept) (hleads : Leads behaviour machine next) :
    next.Kept := by
  induction hleads with
  | refl => exact h
  | tail _ hstep ih => exact ih.step hstep

/-- The machine when a submission has gone through the mailbox into the hands of the worker. -/
def Machine.handed (machine : Machine ρ υ α) (ticket : Ticket) (envelope : Envelope υ) :
    Machine ρ υ α :=
  { machine with
    worker := .holding ticket envelope
    enqueued := machine.enqueued ++ [(ticket, envelope)] }.goto ticket .awaiting

/-- What somebody puts into the mailbox, an idle worker has in its hands at once. -/
theorem leads_handed (machine : Machine ρ υ α) {envelope : Envelope υ}
    (idle : machine.worker = .idle) (nothing : machine.actor.waiting = [])
    (room : 0 < machine.actor.depth) :
    Leads behaviour (machine.goto ticket (.sending envelope)) (machine.handed ticket envelope) := by
  have henqueued : Leads behaviour (machine.goto ticket (.sending envelope)) _ :=
    leads_enqueued machine (by rw [idle]; trivial) (by rw [nothing]; exact room)
  let filled : Machine ρ υ α := { machine with
    actor := { machine.actor with waiting := [(ticket, envelope)] }
    enqueued := machine.enqueued ++ [(ticket, envelope)] }
  have htakes : Step behaviour (filled.goto ticket .awaiting) _ := .takes idle rfl
  have hactor : { filled.actor with waiting := [] } = machine.actor := by
    show { machine.actor with waiting := [] } = machine.actor
    rw [← nothing]
  rw [nothing, List.nil_append] at henqueued
  refine henqueued.tail ?_
  unfold Machine.handed
  rw [← hactor]
  exact htakes

/-- The machine when somebody has come with a submission. -/
def Machine.called (machine : Machine ρ υ α) (envelope : Envelope υ) : Machine ρ υ α :=
  { machine with
    actor := { machine.actor with submitted := machine.actor.submitted + 1 }
    calls := machine.calls ++ [envelope] }

/-- Nobody waits for the actor, and the worker waits for somebody. -/
structure AtRest (machine : Machine ρ υ α) : Prop where
  kept : machine.Kept
  idle : machine.worker = .idle
  nothing : machine.actor.waiting = []
  unoccupied : machine.actor.serving = none
  isOpen : machine.actor.closing = false
  held : machine.released = false
  room : 0 < machine.actor.depth

theorem atRest_start (name : String) (depth : Nat) (initial : ρ) :
    AtRest (.start name depth initial : Machine ρ υ α) where
  kept := kept_start ..
  idle := rfl
  nothing := rfl
  unoccupied := rfl
  isOpen := rfl
  held := rfl
  room := Nat.lt_of_lt_of_le Nat.one_pos (Nat.le_max_right ..)

namespace AtRest

variable (h : AtRest machine)

include h

/-- A new ticket has no answer yet, so the first one it is given is its answer. -/
theorem lookup_concat (reply : Except Error α) :
    (machine.actor.answers ++ [(machine.actor.submitted, reply)]).lookup machine.actor.submitted
      = some reply := by
  have hnone : machine.actor.answers.lookup machine.actor.submitted = none := by
    rw [List.lookup_eq_none_iff]
    intro answer hanswer
    have hlt := h.kept.tidy.known answer.1
      (List.mem_append_right _ (List.mem_map_of_mem hanswer))
    rw [← h.kept.submitted] at hlt
    simpa using Nat.ne_of_gt hlt
  rw [List.lookup_append, hnone, Option.none_or, List.lookup_cons_self]

/-- What the actor is left as that has served a unit. -/
theorem settle_submit {unit : υ}
    (hrun : behaviour.run unit machine.resource = (.done value, resource)) :
    (machine.actor.submit unit).2.settle behaviour machine.resource
      = ({ machine.actor.answer machine.actor.submitted (.ok value) with
            completed := machine.actor.completed + 1
            submitted := machine.actor.submitted + 1 }, resource) := by
  simp [Actor.submit, Actor.enqueue, Actor.settle, Actor.resume, Actor.work, Actor.begin,
    Actor.settleUnit, Actor.answer, h.isOpen, h.nothing, h.unoccupied, hrun]

/-- What the actor is left as that has run its teardown. -/
theorem settle_requestClose {teardown : υ}
    (hrun : behaviour.teardown teardown machine.resource = (value, resource)) :
    (machine.actor.requestClose teardown).2.settle behaviour machine.resource
      = ({ machine.actor.answer machine.actor.submitted (.ok value) with
            closing := true
            completed := machine.actor.completed + 1
            submitted := machine.actor.submitted + 1 }, resource) := by
  simp [Actor.requestClose, Actor.enqueue, Actor.settle, Actor.resume, Actor.work, Actor.begin,
    Actor.answer, h.isOpen, h.nothing, h.unoccupied, hrun]

/-- **It serves a unit that does not have to wait.** -/
theorem serves {unit : υ} (hrun : behaviour.run unit machine.resource = (.done value, resource)) :
    ∃ next : Machine ρ υ α,
      TransGen (Step behaviour)
        ((machine.called (.run unit)).goto machine.actor.submitted (.checking unit)) next ∧
      AtRest next ∧ next.calls = machine.calls ++ [.run unit] ∧
      next.callers machine.actor.submitted = .returned (.ok value) ∧
      (next.actor, next.resource)
        = (machine.actor.submit unit).2.settle behaviour machine.resource := by
  let called := machine.called (.run unit)
  have harrives : Step behaviour machine (called.goto machine.actor.submitted (.checking unit)) :=
    .arrives (.run unit) h.held
  have hadmitted : Step behaviour (called.goto machine.actor.submitted (.checking unit)) _ :=
    .admitted (callers_goto ..) h.isOpen
  rw [goto_with] at hadmitted
  let holding := called.handed machine.actor.submitted (.run unit)
  have hhanded : Leads behaviour (called.goto machine.actor.submitted (.sending (.run unit)))
      holding := leads_handed called h.idle h.nothing h.room
  -- the worker begins the unit, which comes to its end at once
  have hbegin : holding.actor.begin behaviour machine.actor.submitted (.run unit) holding.resource
      = ({ called.actor.answer machine.actor.submitted (.ok value) with
          completed := machine.actor.completed + 1 }, resource) := by
    have hopen : ¬holding.actor.closing = true := by
      show ¬machine.actor.closing = true
      rw [h.isOpen]
      exact Bool.false_ne_true
    simp only [Actor.begin, if_neg hopen, show behaviour.run unit holding.resource = _ from hrun]
    rfl
  obtain ⟨worker, ran, hpoised, hbegun⟩ := comesTo_begin behaviour holding rfl h.unoccupied
  rw [hbegin] at hbegun hpoised
  have hidle : worker = .idle := by
    rcases hpoised with ⟨hidle, -⟩ | ⟨_, _, _, -, hserving⟩
    · exact hidle
    · cases h.unoccupied.symm.trans hserving
  have hall := (TransGen.head' hadmitted (hhanded.trans hbegun)).tail
    (.returned (callers_goto ..) (h.lookup_concat (.ok value)))
  refine ⟨_, hall, ?_, rfl, callers_goto .., (h.settle_submit hrun).symm⟩
  exact ⟨h.kept.leads (.head harrives hall.to_reflTransGen), hidle, h.nothing, h.unoccupied, h.isOpen, h.held,
    h.room⟩

/-- **It runs its teardown.** -/
theorem parts {teardown : υ}
    (hrun : behaviour.teardown teardown machine.resource = (value, resource)) :
    ∃ next : Machine ρ υ α,
      TransGen (Step behaviour)
        ((machine.called (.close teardown)).goto machine.actor.submitted (.swapping teardown))
        next ∧
      next.calls = machine.calls ++ [.close teardown] ∧ next.released = false ∧
      next.callers machine.actor.submitted = .returned (.ok value) ∧
      (next.actor, next.resource)
        = (machine.actor.requestClose teardown).2.settle behaviour machine.resource := by
  let called := machine.called (.close teardown)
  have hcloses : Step behaviour (called.goto machine.actor.submitted (.swapping teardown)) _ :=
    .closes (callers_goto ..) h.isOpen
  rw [goto_with] at hcloses
  let closing : Machine ρ υ α := { called with actor := { called.actor with closing := true } }
  let holding := closing.handed machine.actor.submitted (.close teardown)
  have hhanded : Leads behaviour
      (closing.goto machine.actor.submitted (.sending (.close teardown))) holding :=
    leads_handed closing h.idle h.nothing h.room
  have hbegin : holding.actor.begin behaviour machine.actor.submitted (.close teardown)
        holding.resource
      = ({ closing.actor.answer machine.actor.submitted (.ok value) with
          completed := machine.actor.completed + 1 }, resource) := by
    simp only [Actor.begin, show behaviour.teardown teardown holding.resource = _ from hrun]
    rfl
  obtain ⟨ran, hteardown⟩ := @leads_teardown _ _ _ behaviour holding _ _ rfl h.nothing
  rw [hbegin] at hteardown
  have hall := (TransGen.head' hcloses (hhanded.trans hteardown)).tail
    (.returned (callers_goto ..) (h.lookup_concat (.ok value)))
  exact ⟨_, hall, rfl, h.held, callers_goto .., (h.settle_requestClose hrun).symm⟩

end AtRest

end CommitLog.Actor.Contention
