import CommitLog.Queue.Error

/-!
# Handing values over

A queue distributes batches of values to all consumers that are registered. Each consumer sees
every value that is published after it registered, in the order of publication and at its own
pace. This module holds what the two backends have in common: what a consumer is told when it
polls, what a producer is told when it publishes, and a publication that has to wait.
-/

namespace CommitLog.Queue

/-- A bound that is raised to one at least. -/
theorem max_one_pos (n : Nat) : 0 < max n 1 := by omega

/-- Names a consumer of a queue. -/
abbrev ConsumerId := Nat

/-- What a consumer is told when it asks for the next value. -/
inductive Poll (α : Type) where
  | ready (value : α)
  /-- Everything published so far has been seen. -/
  | empty
  /-- Everything has been seen, and nothing more will come. -/
  | closed
deriving DecidableEq, Repr

/-- A refused batch goes back to its producer. -/
structure Rejected (α : Type) where
  reason : Error
  batch : List α
deriving DecidableEq, Repr

/-- The refusal as a term: the reason, and how many values go back. -/
def Rejected.display {α : Type} (rejected : Rejected α) : String :=
  "PublishRejected \x7b reason: " ++ rejected.reason.display ++ ", len: "
    ++ toString rejected.batch.length ++ " \x7d"

/-- A batch that is being handed over. Where every consumer has a place of its own, the first
`served` of the places hold the batch already. -/
structure Publication (α : Type) where
  batch : List α
  served : Nat := 0
  /-- Another publication has begun and is to end first. -/
  inLine : Bool := false
deriving DecidableEq, Repr

/-- How far a publication has come. -/
inductive Progress (α : Type) where
  | published
  | rejected (rejected : Rejected α)
  /-- There is no room at the moment. -/
  | waiting (rest : Publication α)
deriving DecidableEq, Repr

end CommitLog.Queue
