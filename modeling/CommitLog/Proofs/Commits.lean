import CommitLog.Partition.Append
import CommitLog.Proofs.Partition.Recovery

/-!
# Rows of commits

A partition is a row of commits, each of which starts where the one before it ends. Its file holds
their frames. A frame says everything about its commit but the place, and the place follows from
the frames before it: `commitsFrom` puts the commits back together.
-/

namespace CommitLog

/-- What is stored of a commit. -/
def Commit.frame (commit : RawCommit) : Frame :=
  ⟨commit.id, commit.timestamp, commit.key, commit.entries⟩

/-- The commits of one partition, in order. -/
def commitsIn (commits : List RawCommit) (number : UInt32) : List RawCommit :=
  commits.filter fun commit => commit.partition == number

/-- The frames of one partition, in order. -/
def framesIn (commits : List RawCommit) (number : UInt32) : List Frame :=
  (commitsIn commits number).map Commit.frame

/-- The commit of a frame with that many entries of its partition before it. -/
def commitAt (number : UInt32) (start : Nat) (frame : Frame) : RawCommit where
  id := frame.id
  timestamp := frame.timestamp
  key := frame.key
  entries := frame.entries
  actual := (Revision.mk number (UInt64.ofNat start)).advancedBy frame.entries.length
  expected := ⟨number, UInt64.ofNat start⟩

/-- The commits of a row of frames with that many entries of their partition before them. -/
def commitsFrom (number : UInt32) : Nat → List Frame → List RawCommit
  | _, [] => []
  | start, frame :: later =>
    commitAt number start frame :: commitsFrom number (start + frame.entries.length) later

namespace Partition

variable {number other : UInt32} {start : Nat} {frames : List Frame}

@[simp] theorem frame_commitAt (number : UInt32) (start : Nat) (frame : Frame) :
    (commitAt number start frame).frame = frame := rfl

theorem map_frame_commitsFrom (number : UInt32) (start : Nat) (frames : List Frame) :
    (commitsFrom number start frames).map Commit.frame = frames := by
  induction frames generalizing start with
  | nil => rfl
  | cons frame later ih => rw [commitsFrom, List.map_cons, ih, frame_commitAt]

theorem commitsFrom_append (number : UInt32) (start : Nat) (front later : List Frame) :
    commitsFrom number start (front ++ later)
      = commitsFrom number start front ++ commitsFrom number (start + entryCount front) later := by
  induction front generalizing start with
  | nil => rfl
  | cons frame front ih =>
    rw [List.cons_append, commitsFrom, commitsFrom, ih, entryCount_cons, Nat.add_assoc]
    rfl

theorem commitsFrom_singleton (number : UInt32) (start : Nat) (frame : Frame) :
    commitsFrom number start [frame] = [commitAt number start frame] := rfl

theorem getElem?_commitsFrom (number : UInt32) (start : Nat) (frames : List Frame) (k : Nat) :
    (commitsFrom number start frames)[k]?
      = frames[k]?.map (commitAt number (start + entryCount (frames.take k))) := by
  induction frames generalizing start k with
  | nil => rfl
  | cons frame later ih =>
    cases k with
    | zero => rfl
    | succ k =>
      rw [commitsFrom, List.getElem?_cons_succ, List.getElem?_cons_succ, ih, List.take_succ_cons,
        entryCount_cons, Nat.add_assoc]

theorem commitsIn_append (front later : List RawCommit) (number : UInt32) :
    commitsIn (front ++ later) number = commitsIn front number ++ commitsIn later number :=
  List.filter_append ..

theorem commitsIn_singleton (commit : RawCommit) (number : UInt32) :
    commitsIn [commit] number = if number = commit.partition then [commit] else [] := by
  by_cases h : number = commit.partition
  · simp [commitsIn, h]
  · simp [commitsIn, h, Ne.symm h]

theorem commitsIn_cons_self (commit : RawCommit) (later : List RawCommit) :
    commitsIn (commit :: later) commit.partition = commit :: commitsIn later commit.partition :=
  List.filter_cons_of_pos (by simp)

theorem framesIn_append (front later : List RawCommit) (number : UInt32) :
    framesIn (front ++ later) number = framesIn front number ++ framesIn later number := by
  rw [framesIn, commitsIn_append, List.map_append]
  rfl

theorem framesIn_singleton (commit : RawCommit) (number : UInt32) :
    framesIn [commit] number = if number = commit.partition then [commit.frame] else [] := by
  unfold framesIn
  rw [commitsIn_singleton]
  split <;> rfl

theorem mem_framesIn {commits : List RawCommit} {frame : Frame}
    (h : frame ∈ framesIn commits number) : ∃ commit ∈ commits, commit.frame = frame := by
  obtain ⟨commit, hcommit, rfl⟩ := List.mem_map.1 h
  exact ⟨commit, (List.mem_filter.1 hcommit).1, rfl⟩

end Partition

end CommitLog
