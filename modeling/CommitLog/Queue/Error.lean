/-!
# Refusals of a queue

Why a queue does not take a batch of values, or a transaction a value.
-/

namespace CommitLog.Queue

/-- Why values are refused. -/
inductive Error where
  /-- There is no room for the batch right now. -/
  | full
  | closed
  /-- A transaction holds as many values as it was begun for. -/
  | transactionFull (reserved : Nat)
  /-- The batch can never fit. -/
  | batchTooLarge (length capacity : Nat)
deriving DecidableEq, Repr, Inhabited

/-- What is said about a refusal. -/
def Error.message : Error → String
  | .full => "queue is full"
  | .closed => "queue is closed"
  | .transactionFull reserved =>
    "transaction reserved " ++ toString reserved ++ " values and is already full"
  | .batchTooLarge length capacity =>
    "batch of " ++ toString length ++ " values exceeds queue capacity " ++ toString capacity

/-- The refusal as a term: its name, and its numbers in braces. -/
def Error.display : Error → String
  | .full => "Full"
  | .closed => "Closed"
  | .transactionFull reserved =>
    "TransactionFull \x7b reserved: " ++ toString reserved ++ " \x7d"
  | .batchTooLarge length capacity =>
    "BatchTooLarge \x7b len: " ++ toString length ++ ", capacity: " ++ toString capacity
      ++ " \x7d"

end CommitLog.Queue
