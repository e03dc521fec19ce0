import CommitLog.Actor.Error
import CommitLog.Text.Quoted

/-!
# Actors

An actor gives many callers the use of one resource. Callers submit units of work, and a single
worker runs them one at a time in the order of submission. A unit that panics keeps what it has
changed, and the next one runs as ever. A unit may have to wait for something outside; until it
goes on, the worker does nothing else.

Closing submits one last unit, the teardown. Units that are still waiting in the mailbox when
closing is requested are refused, and so is everything submitted later.
-/

namespace CommitLog

namespace Actor

/-- Names a submission. -/
abbrev Ticket := Nat

/-- A submission in the mailbox. -/
inductive Envelope (υ : Type) where
  | run (unit : υ)
  | close (teardown : υ)
deriving DecidableEq, Repr

/-- How far a unit of work has come. -/
inductive Served (υ α : Type) where
  | done (value : α)
  | panicked (panic : Panic)
  /-- The unit has to wait, and this is left of it. -/
  | waiting (rest : υ)
deriving DecidableEq, Repr

/-- What the worker does to the resource. -/
structure Behaviour (ρ υ α : Type) where
  /-- Runs a unit of work as far as it comes. -/
  run : υ → ρ → Served υ α × ρ
  /-- Runs the last unit. It is answered even if it panics. -/
  teardown : υ → ρ → α × ρ

end Actor

/-- The mailbox of an actor and the state of its worker. -/
structure Actor (υ α : Type) where
  name : String
  /-- How many submissions the mailbox holds; more of them wait in front of it. -/
  depth : Nat
  /-- The submissions that have not been begun, in order. -/
  waiting : List (Actor.Ticket × Actor.Envelope υ) := []
  /-- What is left of the unit that the worker has begun. -/
  serving : Option (Actor.Ticket × υ) := none
  closing : Bool := false
  /-- How many units have run, the teardown among them. -/
  completed : Nat := 0
  /-- The answers to submissions. -/
  answers : List (Actor.Ticket × Except Actor.Error α) := []
  /-- How many submissions there were. -/
  submitted : Nat := 0

namespace Actor

variable {ρ υ α : Type}

/-- The depth of a mailbox for which none is given. -/
def defaultDepth : Nat := 1024

/-- An idle actor with a mailbox for at least one submission. -/
def start (name : String) (depth : Nat) : Actor υ α := { name, depth := max depth 1 }

/-- Whether work is refused. -/
def isClosed (actor : Actor υ α) : Bool := actor.closing

/-- Answers a submission. -/
def answer (actor : Actor υ α) (ticket : Ticket) (reply : Except Error α) : Actor υ α :=
  { actor with answers := actor.answers ++ [(ticket, reply)] }

/-- Refuses a submission. -/
def refuse (actor : Actor υ α) (ticket : Ticket) : Actor υ α :=
  actor.answer ticket (.error (.closed actor.name))

/-- The answer to a submission, if there is one yet. -/
def answer? (actor : Actor υ α) (ticket : Ticket) : Option (Except Error α) :=
  actor.answers.lookup ticket

/-! ## Callers -/

/-- Takes a submission, or refuses it when the actor is closing. -/
def enqueue (actor : Actor υ α) (envelope : Envelope υ) : Ticket × Actor υ α :=
  let ticket := actor.submitted
  let counted := { actor with submitted := ticket + 1 }
  if actor.closing then (ticket, counted.refuse ticket)
  else (ticket, { counted with waiting := actor.waiting ++ [(ticket, envelope)] })

/-- Submits a unit of work. -/
def submit (actor : Actor υ α) (unit : υ) : Ticket × Actor υ α := actor.enqueue (.run unit)

/-- Requests closing, with the unit that is to run last. -/
def requestClose (actor : Actor υ α) (teardown : υ) : Ticket × Actor υ α :=
  let (ticket, actor) := actor.enqueue (.close teardown)
  (ticket, { actor with closing := true })

/-! ## The worker -/

/-- Notes how far a unit has come. -/
def settleUnit (actor : Actor υ α) (ticket : Ticket) (served : Served υ α) : Actor υ α :=
  match served with
  | .done value => { actor.answer ticket (.ok value) with completed := actor.completed + 1 }
  | .panicked panic =>
    { actor.answer ticket (.error (.panicked actor.name panic)) with
      completed := actor.completed + 1 }
  | .waiting rest => { actor with serving := some (ticket, rest) }

/-- Goes on with the unit that the worker has begun. -/
def resume (behaviour : Behaviour ρ υ α) (actor : Actor υ α) (resource : ρ) : Actor υ α × ρ :=
  match actor.serving with
  | none => (actor, resource)
  | some (ticket, unit) =>
    let (served, resource) := behaviour.run unit resource
    (settleUnit { actor with serving := none } ticket served, resource)

/-- Begins the submission that is first in the mailbox. A unit of work is refused when closing
was requested; behind the teardown everything is. -/
def begin (behaviour : Behaviour ρ υ α) (actor : Actor υ α) (ticket : Ticket)
    (envelope : Envelope υ) (resource : ρ) : Actor υ α × ρ :=
  match envelope with
  | .run unit =>
    if actor.closing then (actor.refuse ticket, resource)
    else
      let (served, resource) := behaviour.run unit resource
      (actor.settleUnit ticket served, resource)
  | .close teardown =>
    let (value, resource) := behaviour.teardown teardown resource
    ({ actor.answer ticket (.ok value) with completed := actor.completed + 1 }, resource)

/-- Works through submissions until one has to wait. -/
def work (behaviour : Behaviour ρ υ α) :
    List (Ticket × Envelope υ) → Actor υ α → ρ → Actor υ α × ρ
  | [], actor, resource => ({ actor with waiting := [] }, resource)
  | (ticket, envelope) :: later, actor, resource =>
    if actor.serving.isSome then
      ({ actor with waiting := (ticket, envelope) :: later }, resource)
    else
      let (actor, resource) := actor.begin behaviour ticket envelope resource
      work behaviour later actor resource

/-- Lets the worker go on until it has nothing to do or has to wait. -/
def settle (behaviour : Behaviour ρ υ α) (actor : Actor υ α) (resource : ρ) : Actor υ α × ρ :=
  let (actor, resource) := actor.resume behaviour resource
  work behaviour actor.waiting actor resource

/-- The actor as a term: its name, and the state of its worker. -/
def display (actor : Actor υ α) : String :=
  "ResourceActor \x7b name: " ++ Text.quoted actor.name ++ ", closing: "
    ++ toString actor.closing ++ ", completed: " ++ toString actor.completed ++ " \x7d"

end Actor

end CommitLog
