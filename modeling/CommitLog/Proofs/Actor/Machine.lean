import CommitLog.Actor
import Mathlib.Logic.Function.Basic
import Mathlib.Logic.Relation

/-!
# An actor under contention

Callers submit work at the same time, and the worker goes on in the middle of it. Here every
access to what they share is a step of its own: to the flag that says that closing was requested,
to the mailbox, and to the answers. The steps of all callers and of the worker come in any order.

A caller looks at the flag, puts its unit of work into the mailbox as soon as there is room, and
waits for the answer; whoever requests closing swaps the flag first. `Caller` says how far a call
has come, and `Worker` what the worker does next. A caller may give up at any time, which does not
take back what is in the mailbox by then.

The mailbox hands out what was put there in that order. Every access sees all that were made before
it; what weaker orders of memory allow is left out.

A unit of work comes to its end in one go or in pieces, and what it learns from outside between
them is part of the unit.
-/

namespace CommitLog.Actor

variable {ρ υ α : Type}

/-- What a unit has come to, unless it has to wait. -/
def Served.outcome? : Served υ α → Option (Except Panic α)
  | done value => some (.ok value)
  | panicked panic => some (.error panic)
  | waiting _ => none

namespace Contention

/-! ## Callers and the worker -/

/-- How far a call has come. -/
inductive Caller (υ α : Type) where
  /-- There was no call with this ticket. -/
  | absent
  /-- Looks whether closing was requested. -/
  | checking (unit : υ)
  /-- Requests closing, and looks whether somebody else had. -/
  | swapping (teardown : υ)
  /-- Puts its submission into the mailbox as soon as there is room. -/
  | sending (envelope : Envelope υ)
  | awaiting
  | returned (reply : Except Error α)
  /-- Gave up. -/
  | gone

/-- What a call has still to put into the mailbox. -/
def Caller.asks? : Caller υ α → Option (Envelope υ)
  | checking unit => some (.run unit)
  | swapping teardown => some (.close teardown)
  | sending envelope => some envelope
  | _ => none

/-- Whether a call is under way. -/
def Caller.Calls : Caller υ α → Prop
  | checking _ | swapping _ | sending _ | awaiting => True
  | _ => False

/-- What the worker does next. -/
inductive Worker (υ α : Type) where
  /-- Takes the first submission from the mailbox. -/
  | idle
  /-- Looks whether closing was requested, or runs the teardown. -/
  | holding (ticket : Ticket) (envelope : Envelope υ)
  /-- Runs a piece of the unit. -/
  | serving (ticket : Ticket) (unit : υ)
  /-- Answers a unit that has come to its end. -/
  | replying (ticket : Ticket) (outcome : Except Panic α)
  /-- Counts the unit. -/
  | counting
  /-- Counts the teardown. -/
  | tornDown (ticket : Ticket) (value : α)
  /-- Closes the mailbox. -/
  | shutting (ticket : Ticket) (value : α)
  /-- Refuses what is left in the mailbox; then answers whoever requested closing. -/
  | draining (ticket : Ticket) (value : α)
  | stopped

namespace Worker

/-- The submission that the worker has taken and not answered. -/
def owes? : Worker υ α → Option Ticket
  | holding ticket _ | serving ticket _ | replying ticket _ | tornDown ticket _
  | shutting ticket _ | draining ticket _ => some ticket
  | _ => none

/-- The submission that the worker has taken and not judged. -/
def held : Worker υ α → List (Ticket × Envelope υ)
  | holding ticket envelope => [(ticket, envelope)]
  | _ => []

/-- The unit that the worker has begun and that has not come to its end. -/
def inService : Worker υ α → List (Ticket × Envelope υ)
  | serving ticket unit => [(ticket, .run unit)]
  | _ => []

/-- What is to be answered, and to whom. -/
def result? : Worker υ α → Option (Ticket × Except Panic α)
  | replying ticket outcome => some (ticket, outcome)
  | tornDown ticket value | shutting ticket value | draining ticket value =>
    some (ticket, .ok value)
  | _ => none

/-- Whether the mailbox takes submissions. -/
def Receives : Worker υ α → Prop
  | draining .. | stopped => False
  | _ => True

/-- Whether the worker has nothing more to do with the resource. -/
def Over : Worker υ α → Prop
  | tornDown .. | shutting .. | draining .. | stopped => True
  | _ => False

end Worker

/-! ## The machine -/

/-- A unit of work or a teardown that has come to its end. -/
structure Ran (υ α : Type) where
  ticket : Ticket
  envelope : Envelope υ
  outcome : Except Panic α

/-- What was submitted. -/
def Ran.submission (ran : Ran υ α) : Ticket × Envelope υ := (ran.ticket, ran.envelope)

/-- An actor with its resource and all who use it. -/
structure Machine (ρ υ α : Type) where
  actor : Actor υ α
  resource : ρ
  callers : Ticket → Caller υ α
  worker : Worker υ α := .idle
  /-- Nobody has the actor any more. -/
  released : Bool := false
  /-- What was submitted under each ticket. No step looks at it. -/
  calls : List (Envelope υ) := []
  /-- What was put into the mailbox so far, in order. No step looks at it. -/
  enqueued : List (Ticket × Envelope υ) := []
  /-- What has come to its end, in order. No step looks at it. -/
  ran : List (Ran υ α) := []

/-- What is answered to a unit that has come to its end. -/
def replyTo (name : String) : Except Panic α → Except Error α
  | .ok value => .ok value
  | .error panic => .error (.panicked name panic)

/-- Where a call begins. -/
def Caller.entry : Envelope υ → Caller υ α
  | .run unit => .checking unit
  | .close teardown => .swapping teardown

namespace Machine

/-- An idle actor that nobody uses yet. -/
def start (name : String) (depth : Nat) (resource : ρ) : Machine ρ υ α where
  actor := .start name depth
  resource
  callers _ := .absent

/-- A caller at another stage. -/
def goto (machine : Machine ρ υ α) (ticket : Ticket) (stage : Caller υ α) : Machine ρ υ α :=
  { machine with callers := Function.update machine.callers ticket stage }

/-- What the worker has begun, in order. -/
def begun (machine : Machine ρ υ α) : List (Ticket × Envelope υ) :=
  machine.ran.map Ran.submission ++ machine.worker.inService

/-- The tickets that the worker has answered, or is to answer. -/
def tickets (machine : Machine ρ υ α) : List Ticket :=
  machine.worker.owes?.toList ++ machine.actor.waiting.map Prod.fst
    ++ machine.actor.answers.map Prod.fst

end Machine

open Machine in
/-- One access of a caller or of the worker. -/
inductive Step (behaviour : Behaviour ρ υ α) (machine : Machine ρ υ α) :
    Machine ρ υ α → Prop where
  | arrives (envelope : Envelope υ) (held : machine.released = false) :
      Step behaviour machine ({ machine with
        actor := { machine.actor with submitted := machine.actor.submitted + 1 }
        calls := machine.calls ++ [envelope] }.goto machine.actor.submitted (.entry envelope))
  | admitted {ticket : Ticket} {unit : υ} (stage : machine.callers ticket = .checking unit)
      (isOpen : machine.actor.closing = false) :
      Step behaviour machine (machine.goto ticket (.sending (.run unit)))
  | refused {ticket : Ticket} {unit : υ} (stage : machine.callers ticket = .checking unit)
      (closing : machine.actor.closing = true) :
      Step behaviour machine ({ machine with actor := machine.actor.refuse ticket }.goto ticket
        .awaiting)
  | closes {ticket : Ticket} {teardown : υ} (stage : machine.callers ticket = .swapping teardown)
      (isOpen : machine.actor.closing = false) :
      Step behaviour machine ({ machine with actor := { machine.actor with closing := true } }.goto
        ticket (.sending (.close teardown)))
  | closedBefore {ticket : Ticket} {teardown : υ}
      (stage : machine.callers ticket = .swapping teardown)
      (closing : machine.actor.closing = true) :
      Step behaviour machine ({ machine with actor := machine.actor.refuse ticket }.goto ticket
        .awaiting)
  | enqueued {ticket : Ticket} {envelope : Envelope υ}
      (stage : machine.callers ticket = .sending envelope) (receives : machine.worker.Receives)
      (room : machine.actor.waiting.length < machine.actor.depth) :
      Step behaviour machine ({ machine with
        actor := { machine.actor with waiting := machine.actor.waiting ++ [(ticket, envelope)] }
        enqueued := machine.enqueued ++ [(ticket, envelope)] }.goto ticket .awaiting)
  /-- The mailbox takes nothing any more. Whoever still gets in while it closes is refused as well,
  so that is the same step. -/
  | bounced {ticket : Ticket} {envelope : Envelope υ}
      (stage : machine.callers ticket = .sending envelope) (shut : ¬machine.worker.Receives) :
      Step behaviour machine ({ machine with actor := machine.actor.refuse ticket }.goto ticket
        .awaiting)
  | returned {ticket : Ticket} {reply : Except Error α}
      (stage : machine.callers ticket = .awaiting)
      (answered : machine.actor.answer? ticket = some reply) :
      Step behaviour machine (machine.goto ticket (.returned reply))
  | leaves {ticket : Ticket} (calls : (machine.callers ticket).Calls) :
      Step behaviour machine (machine.goto ticket .gone)
  /-- Nobody is to use the actor any more. -/
  | releases (free : ∀ ticket, ¬(machine.callers ticket).Calls) :
      Step behaviour machine { machine with released := true }
  | takes {ticket : Ticket} {envelope : Envelope υ} {later : List (Ticket × Envelope υ)}
      (idle : machine.worker = .idle)
      (first : machine.actor.waiting = (ticket, envelope) :: later) :
      Step behaviour machine { machine with
        actor := { machine.actor with waiting := later }
        worker := .holding ticket envelope }
  /-- There is nothing to do, and never will be. -/
  | quits (idle : machine.worker = .idle) (nothing : machine.actor.waiting = [])
      (released : machine.released = true) :
      Step behaviour machine { machine with worker := .stopped }
  | drops {ticket : Ticket} {unit : υ} (holding : machine.worker = .holding ticket (.run unit))
      (closing : machine.actor.closing = true) :
      Step behaviour machine { machine with
        actor := machine.actor.refuse ticket
        worker := .idle }
  | begins {ticket : Ticket} {unit : υ} (holding : machine.worker = .holding ticket (.run unit))
      (isOpen : machine.actor.closing = false) :
      Step behaviour machine { machine with
        actor := { machine.actor with serving := some (ticket, unit) }
        worker := .serving ticket unit }
  /-- The unit comes to a point where it has to wait. -/
  | goesOn {ticket : Ticket} {unit left rest : υ} {resource : ρ}
      (serving : machine.worker = .serving ticket unit)
      (isLeft : machine.actor.serving = some (ticket, left))
      (runs : behaviour.run left machine.resource = (.waiting rest, resource)) :
      Step behaviour machine { machine with
        actor := { machine.actor with serving := some (ticket, rest) }
        resource }
  /-- The unit comes to its end, be it by a panic. -/
  | ends {ticket : Ticket} {unit left : υ} {served : Served υ α} {outcome : Except Panic α}
      {resource : ρ} (serving : machine.worker = .serving ticket unit)
      (isLeft : machine.actor.serving = some (ticket, left))
      (runs : behaviour.run left machine.resource = (served, resource))
      (ended : served.outcome? = some outcome) :
      Step behaviour machine { machine with
        actor := { machine.actor with serving := none }
        resource
        worker := .replying ticket outcome
        ran := machine.ran ++ [⟨ticket, .run unit, outcome⟩] }
  | replies {ticket : Ticket} {outcome : Except Panic α}
      (replying : machine.worker = .replying ticket outcome) :
      Step behaviour machine { machine with
        actor := machine.actor.answer ticket (replyTo machine.actor.name outcome)
        worker := .counting }
  | counts (counting : machine.worker = .counting) :
      Step behaviour machine { machine with
        actor := { machine.actor with completed := machine.actor.completed + 1 }
        worker := .idle }
  /-- The teardown is run, whether it panics or not. -/
  | tearsDown {ticket : Ticket} {teardown : υ} {value : α} {resource : ρ}
      (holding : machine.worker = .holding ticket (.close teardown))
      (runs : behaviour.teardown teardown machine.resource = (value, resource)) :
      Step behaviour machine { machine with
        resource
        worker := .tornDown ticket value
        ran := machine.ran ++ [⟨ticket, .close teardown, .ok value⟩] }
  | finishes {ticket : Ticket} {value : α} (tornDown : machine.worker = .tornDown ticket value) :
      Step behaviour machine { machine with
        actor := { machine.actor with completed := machine.actor.completed + 1 }
        worker := .shutting ticket value }
  | shuts {ticket : Ticket} {value : α} (shutting : machine.worker = .shutting ticket value) :
      Step behaviour machine { machine with worker := .draining ticket value }
  | drains {ticket other : Ticket} {value : α} {envelope : Envelope υ}
      {later : List (Ticket × Envelope υ)} (draining : machine.worker = .draining ticket value)
      (first : machine.actor.waiting = (other, envelope) :: later) :
      Step behaviour machine { machine with
        actor := { machine.actor with waiting := later }.refuse other }
  | stops {ticket : Ticket} {value : α} (draining : machine.worker = .draining ticket value)
      (nothing : machine.actor.waiting = []) :
      Step behaviour machine { machine with
        actor := machine.actor.answer ticket (.ok value)
        worker := .stopped }

/-- What an actor can come to, in whatever order the accesses come. -/
inductive Reachable (behaviour : Behaviour ρ υ α) (name : String) (depth : Nat) (initial : ρ) :
    Machine ρ υ α → Prop where
  | start : Reachable behaviour name depth initial (.start name depth initial)
  | step {machine next : Machine ρ υ α} (h : Reachable behaviour name depth initial machine)
      (hstep : Step behaviour machine next) : Reachable behaviour name depth initial next

/-- One state of the machine is followed by another. -/
abbrev Leads (behaviour : Behaviour ρ υ α) : Machine ρ υ α → Machine ρ υ α → Prop :=
  Relation.ReflTransGen (Step behaviour)

theorem Reachable.leads {behaviour : Behaviour ρ υ α} {name : String} {depth : Nat} {initial : ρ}
    {machine next : Machine ρ υ α} (h : Reachable behaviour name depth initial machine)
    (hleads : Leads behaviour machine next) : Reachable behaviour name depth initial next := by
  induction hleads with
  | refl => exact h
  | tail _ hstep ih => exact ih.step hstep

end Contention

end CommitLog.Actor
