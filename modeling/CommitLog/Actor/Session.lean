import CommitLog.Actor
import CommitLog.Named

/-!
# Sessions with an actor

A session is a program that uses one actor and its resource. It submits work and waits for the
answer, or submits work under a name and asks for the answer later. A step has no result when a
name leads to nothing, and when it would wait for ever.
-/

namespace CommitLog.Actor

/-- The state of a program that uses an actor. -/
structure Session (ρ υ α : Type) where
  actor : Actor υ α
  resource : ρ
  /-- Submissions whose answers have not been asked for. -/
  jobs : Named Ticket := []

namespace Session

variable {ρ υ α : Type}

/-- A step of a session. -/
abbrev Step (ρ υ α β : Type) := StateT (Session ρ υ α) Option β

/-- Lets the worker go on. -/
def settle (behaviour : Behaviour ρ υ α) (session : Session ρ υ α) : Session ρ υ α :=
  let (actor, resource) := session.actor.settle behaviour session.resource
  { session with actor, resource }

/-- Changes the resource from outside, and lets the worker go on. -/
def touch (behaviour : Behaviour ρ υ α) (change : ρ → ρ) : Step ρ υ α Unit :=
  modify fun session => { session with resource := change session.resource }.settle behaviour

/-- Submits something, and lets the worker go on. -/
def submit (behaviour : Behaviour ρ υ α) (act : Actor υ α → Ticket × Actor υ α) :
    Step ρ υ α Ticket :=
  modifyGet fun session =>
    let (ticket, actor) := act session.actor
    (ticket, { session with actor }.settle behaviour)

/-- The answer to a submission. -/
def answer (ticket : Ticket) : Step ρ υ α (Except Error α) := do
  liftM ((← get).actor.answer? ticket)

/-- Submits something, and waits for the answer. -/
def wait (behaviour : Behaviour ρ υ α) (act : Actor υ α → Ticket × Actor υ α) :
    Step ρ υ α (Except Error α) := do
  answer (← submit behaviour act)

/-- Submits something under a name. -/
def submitLater (behaviour : Behaviour ρ υ α) (name : String)
    (act : Actor υ α → Ticket × Actor υ α) : Step ρ υ α Unit := do
  let ticket ← submit behaviour act
  modify fun session => { session with jobs := session.jobs.put name ticket }

/-- The answer to what was submitted under a name. -/
def join (name : String) : Step ρ υ α (Except Error α) := do
  let ticket ← liftM ((← get).jobs.lookup name)
  modify fun session => { session with jobs := session.jobs.drop name }
  answer ticket

end Session

end CommitLog.Actor
