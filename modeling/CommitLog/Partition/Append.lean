import CommitLog.Commit
import CommitLog.Env
import CommitLog.Partition

/-!
# Appending to a partition

An attempt becomes a commit only if its writer knew the tail. The frame is written in one piece,
forced to stable storage if that is asked for, and only then recorded. When writing fails, the
file is cut back to the frames before, and nothing is recorded.
-/

namespace CommitLog.Partition

/-- Writes a frame, and forces it to stable storage if that is asked for. -/
def write (disk : Disk) (handle : Disk.Handle) (durable : Bool) (bytes : Bytes) :
    Except Disk.Failure Unit × Disk :=
  match disk.append handle bytes with
  | (.ok (), disk) => if durable then disk.sync handle else (.ok (), disk)
  | (.error failure, disk) => (.error failure, disk)

/-- The frame of an attempt. -/
def frameOf (attempt : RawAttempt) (id : Identifier) (now : UInt64) : Frame :=
  ⟨id, now, attempt.key, attempt.entries⟩

/-- The commit that an attempt becomes. -/
def commitOf (attempt : RawAttempt) (id : Identifier) (now : UInt64) : RawCommit where
  id := id
  timestamp := now
  key := attempt.key
  entries := attempt.entries
  actual := attempt.expected.advancedBy attempt.size
  expected := attempt.expected

/-- Appends an attempt whose writer expects the tail where it is. -/
def append (p : Partition) (durable : Bool) (attempt : RawAttempt) (env : Env) :
    Except LogError RawOutcome × Partition × Env :=
  if attempt.expected ≠ p.tail then (.ok (.conflict attempt.expected p.tail), p, env)
  else
    match p.handle with
    | none => (.error (.invalidOperation .withoutAppend), p, env)
    | some handle =>
      let (id, ids) := env.ids.next
      let bytes := (frameOf attempt id env.now).encode
      match write env.disk handle durable bytes with
      | (.error failure, disk) =>
        let disk := (disk.setLength handle p.tailBytes).2
        (.error (.io failure p.path.display), p, { env with disk, ids })
      | (.ok (), disk) =>
        let loc : Location := ⟨p.tailOffset, p.tailBytes, bytes.length, attempt.size⟩
        (.ok (.committed (commitOf attempt id env.now)), p.record loc, { env with disk, ids })

end CommitLog.Partition
