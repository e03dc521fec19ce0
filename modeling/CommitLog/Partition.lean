import CommitLog.Disk
import CommitLog.LogError
import CommitLog.Partition.Scan

/-!
# Partitions

A partition is one file of frames together with its index: where each frame lies and which entry
it starts at. A frame is recorded after it has been written, so whoever goes by the index sees
whole commits only. The tail is the number of entries recorded so far.
-/

namespace CommitLog

/-- A partition of a topic. -/
structure Partition where
  number : UInt32
  path : Path
  /-- The recorded frames in the order of their entries. -/
  frames : List Partition.Location := []
  /-- How many entries are recorded. -/
  tailOffset : Nat := 0
  /-- Where the next frame is to begin. -/
  tailBytes : Nat := 0
  /-- The file, if it may be appended to. -/
  handle : Option Disk.Handle := none
deriving DecidableEq, Repr, Inhabited

namespace Partition

/-- The position behind everything that is recorded. -/
def tail (p : Partition) : Revision := ⟨p.number, UInt64.ofNat p.tailOffset⟩

/-- Makes a frame visible to readers. -/
def record (p : Partition) (loc : Location) : Partition :=
  { p with frames := p.frames ++ [loc], tailOffset := loc.stop, tailBytes := loc.endPos }

/-- Makes frames visible one after another. -/
def recordAll (p : Partition) (locs : List Location) : Partition := locs.foldl record p

/-- Scans the partition file at a path. A missing file holds no frame. -/
def scanFile (disk : Disk) (path : Path) (maxField maxWindow : Nat) : Except LogError Scan :=
  match disk.read path with
  | .error .notFound => .ok .empty
  | .error failure => .error (.io failure path.display)
  | .ok data =>
    (scan maxField maxWindow data).mapError fun (pos, damage) => .corrupt path.display pos damage

/-- Scans the file of a partition and compares it with the index. The position is the one behind
all entries that the file holds. -/
def verify (p : Partition) (disk : Disk) (maxField maxWindow : Nat) : Except LogError Revision := do
  let found ← scanFile disk p.path maxField maxWindow
  match found.torn with
  | some torn => throw (.corrupt p.path.display found.validBytes (.torn torn))
  | none =>
    if found.entries < p.tailOffset then
      throw (.corrupt p.path.display found.validBytes (.entriesMissing found.entries p.tailOffset))
    else return ⟨p.number, UInt64.ofNat found.entries⟩

end Partition

end CommitLog
