/-!
# Failures of an actor

Why a unit of work has no result.
-/

namespace CommitLog.Actor

/-- What a unit of work panics with. -/
inductive Panic where
  | text (message : String)
  /-- Something that is no text. -/
  | other
deriving DecidableEq, Repr, Inhabited

/-- What is said about a panic. -/
def Panic.message : Panic → String
  | .text message => message
  | .other => "non-string panic payload"

/-- Why a unit of work has no result. Each failure carries the name of the actor. -/
inductive Error where
  /-- The actor is closed; the unit never runs. -/
  | closed (name : String)
  /-- The unit panicked. What it had changed by then stays changed. -/
  | panicked (name : String) (panic : Panic)
  /-- The worker could not be started. -/
  | spawn (name message : String)
deriving DecidableEq, Repr, Inhabited

/-- What is said about a failure. -/
def Error.message : Error → String
  | .closed name => "resource actor " ++ name ++ " is closed"
  | .panicked name panic => "unit of work on " ++ name ++ " panicked: " ++ panic.message
  | .spawn name text => "failed to start worker for " ++ name ++ ": " ++ text

end CommitLog.Actor
