import CommitLog.Disk
import CommitLog.Identifier

/-!
# Surroundings

What a log needs from outside: a disk, a source of identifiers, and the time.
-/

namespace CommitLog

/-- The surroundings of a log. -/
structure Env where
  disk : Disk := {}
  ids : Identifier.Source := {}
  /-- The time that commits are stamped with, in milliseconds. -/
  now : UInt64 := 0
deriving DecidableEq, Repr, Inhabited

end CommitLog
