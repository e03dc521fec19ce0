import CommitLog.Identifier
import CommitLog.Revision
import CommitLog.Text.Utf8

/-!
# Commits

A writer makes an `Attempt`: a key, entries, and the revision that it believes to be the tail of
the partition. The log answers with an `Outcome`. If the belief was right, the attempt has become
a `Commit` with an identifier and a time, and that is the only form that readers ever see;
otherwise nothing has changed and the writer is told the tail.
-/

namespace CommitLog

/-- A proposed append, with the revision that the writer believes to be the tail. -/
structure Attempt (κ ν : Type) where
  key : κ
  entries : List ν
  expected : Revision
deriving DecidableEq, Repr

namespace Attempt

variable {κ ν : Type}

/-- How many entries are proposed. -/
def size (attempt : Attempt κ ν) : Nat := attempt.entries.length

/-- Whether no entry is proposed. -/
def isEmpty (attempt : Attempt κ ν) : Bool := attempt.entries.isEmpty

/-- The length of the longest among the key and the entries. -/
def largest (attempt : Attempt Bytes Bytes) : Nat :=
  (attempt.entries.map List.length).foldl max attempt.key.length

end Attempt

/-- A stored, ordered unit of a log. The writer expected the tail at `expected`; the tail right
after the commit is `actual`. -/
structure Commit (κ ν : Type) where
  id : Identifier
  timestamp : UInt64
  key : κ
  entries : List ν
  actual : Revision
  expected : Revision
deriving DecidableEq, Repr

/-- A commit of raw bytes. -/
abbrev RawCommit := Commit Bytes Bytes

/-- An attempt of raw bytes. -/
abbrev RawAttempt := Attempt Bytes Bytes

namespace Commit

variable {κ ν κ' ν' ε : Type}

/-- The partition that the commit belongs to. -/
def partition (commit : Commit κ ν) : UInt32 := commit.actual.partition

/-- How many entries the commit holds. -/
def size (commit : Commit κ ν) : Nat := commit.entries.length

/-- Whether the commit holds no entry. -/
def isEmpty (commit : Commit κ ν) : Bool := commit.entries.isEmpty

/-- Changes the entries in order and then the key, in a monad that may fail or keep count. Name,
time and positions stay. -/
def traverse {m : Type → Type} [Monad m] (key : κ → m κ') (entry : ν → m ν')
    (commit : Commit κ ν) : m (Commit κ' ν') := do
  let entries ← commit.entries.mapM entry
  let key ← key commit.key
  return ⟨commit.id, commit.timestamp, key, entries, commit.actual, commit.expected⟩

end Commit

/-- What became of an attempt. -/
inductive Outcome (κ ν : Type) where
  /-- The attempt was appended. -/
  | committed (commit : Commit κ ν)
  /-- The tail was at `actual` and not where the writer expected it. Nothing was written. -/
  | conflict (expected actual : Revision)
deriving DecidableEq, Repr

/-- The outcome of an attempt of raw bytes. -/
abbrev RawOutcome := Outcome Bytes Bytes

namespace Outcome

variable {κ ν : Type}

/-- Whether the attempt was appended. -/
def isCommitted : Outcome κ ν → Bool
  | committed _ => true
  | conflict .. => false

/-- Whether the writer lost the race for the tail. -/
def isConflict : Outcome κ ν → Bool
  | committed _ => false
  | conflict .. => true

/-- The commit, if there is one. -/
def commit? : Outcome κ ν → Option (Commit κ ν)
  | committed commit => some commit
  | conflict .. => none

/-- The tail of the partition after the attempt. -/
def actual : Outcome κ ν → Revision
  | committed commit => commit.actual
  | conflict _ actual => actual

end Outcome

end CommitLog
