import CommitLog.Queue

/-!
# Transactions

A transaction collects a batch of a size that is known up front. Nothing is visible to consumers
before it is committed; a transaction that is dropped leaves no trace.
-/

namespace CommitLog.Queue

/-- A batch that is being collected, with the number of values that it is reserved for. -/
structure Transaction (α : Type) where
  reserved : Nat
  values : List α := []
deriving DecidableEq, Repr

namespace Transaction

variable {α : Type}

/-- Begins a transaction for `n` values. -/
def begin (queue : Queue α) (n : Nat) : Except Error (Transaction α) :=
  if queue.isClosed then .error .closed
  else
    match queue.capacity? with
    | some capacity => if capacity < n then .error (.batchTooLarge n capacity) else .ok ⟨n, []⟩
    | none => .ok ⟨n, []⟩

/-- Adds a value in the next reserved place. -/
def add (tx : Transaction α) (value : α) : Except Error (Transaction α) :=
  if tx.reserved ≤ tx.values.length then .error (.transactionFull tx.reserved)
  else .ok { tx with values := tx.values ++ [value] }

/-- Begins a transaction for a batch, and adds all of it. -/
def ofBatch (queue : Queue α) (batch : List α) : Except Error (Transaction α) := do
  batch.foldlM add (← begin queue batch.length)

/-- How many values have been added. -/
def size (tx : Transaction α) : Nat := tx.values.length

/-- Whether no value has been added. -/
def isEmpty (tx : Transaction α) : Bool := tx.values.isEmpty

/-- Publishes the values, or waits until there is room for them. -/
def commit (tx : Transaction α) (queue : Queue α) : Progress α × Queue α := queue.publish tx.values

/-- Publishes the values if there is room for them. -/
def tryCommit (tx : Transaction α) (queue : Queue α) : Except (Rejected α) (Queue α) :=
  queue.tryPublish tx.values

end Transaction

end CommitLog.Queue
