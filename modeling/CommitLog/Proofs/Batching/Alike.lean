import CommitLog.Proofs.Topic.Agreement

/-!
# Appending up to the stamps

The identifier and the time of a commit are drawn when it is appended. They take the same room
whatever they are, and nothing that is decided about an attempt depends on them. So topics whose
indexes are the same answer an attempt alike, and have the same indexes again afterwards, wherever
their identifiers come from and whatever the time is: `append_alike`.
-/

namespace CommitLog

/-- A commit without its stamps. -/
def Commit.unstamped (commit : RawCommit) : RawCommit :=
  { commit with id := default, timestamp := 0 }

/-- A frame without its stamps. -/
def Frame.unstamped (frame : Frame) : Frame := { frame with id := default, timestamp := 0 }

/-- An outcome without the stamps of its commit. -/
def Outcome.unstamped : RawOutcome → RawOutcome
  | committed commit => committed commit.unstamped
  | conflict expected actual => conflict expected actual

namespace Batching

open CommitLog.Partition (HasRoom commitOf)
open CommitLog.Topic (Agrees Folder appendAll commitsOf)

variable {config : Config} {topic other : Topic} {env later : Env} {folder place : Topic.Folder}
  {commits others : List RawCommit} {attempt : RawAttempt} {p : Partition}

/-- What became of an attempt, without stamps. -/
def unstampedResult (result : Except LogError RawOutcome) : Except LogError RawOutcome :=
  result.map Outcome.unstamped

theorem commitsOf_unstamped (results : List (Except LogError RawOutcome)) :
    commitsOf (results.map unstampedResult) = (commitsOf results).map Commit.unstamped := by
  unfold commitsOf
  rw [List.filterMap_map, List.map_filterMap]
  congr 1
  funext result
  rcases result with e | ⟨commit | ⟨expected, actual⟩⟩ <;> rfl

theorem framesIn_unstamped (commits : List RawCommit) (number : UInt32) :
    framesIn (commits.map Commit.unstamped) number
      = (framesIn commits number).map Frame.unstamped := by
  unfold framesIn commitsIn
  rw [List.filter_map, List.map_map, List.map_map]
  rfl

/-! ## Partitions -/

/-- A partition has one frame more exactly when the attempt was committed. -/
theorem partition_of_append {durable : Bool} {result : Except LogError RawOutcome}
    {after : Partition} (hrun : p.append durable attempt env = (result, after, later)) :
    after = match result with
      | .ok (.committed _) => p.record ⟨p.tailOffset, p.tailBytes,
          Frame.encodedLength attempt.key attempt.entries, attempt.size⟩
      | _ => p := by
  have hlength : ∀ id now, (Partition.frameOf attempt id now).encode.length
      = Frame.encodedLength attempt.key attempt.entries :=
    fun id now => Frame.length_encode _
  unfold Partition.append at hrun
  simp only [hlength] at hrun
  split at hrun
  next =>
    obtain ⟨rfl, rfl, -⟩ := hrun
    rfl
  next =>
    split at hrun
    next =>
      obtain ⟨rfl, rfl, -⟩ := hrun
      rfl
    next =>
      split at hrun
      next =>
        obtain ⟨rfl, rfl, -⟩ := hrun
        rfl
      next =>
        obtain ⟨rfl, rfl, -⟩ := hrun
        rfl

section Partitions

variable {here there : Disk.Place} {frames rest : List Frame}
  (h : p.Holds env.disk here frames) (hsound : env.disk.Sound) (hreliable : env.disk.Reliable)
  (h' : p.Holds later.disk there rest) (hsound' : later.disk.Sound)
  (hreliable' : later.disk.Reliable)

include h h'

theorem hasRoom_iff : HasRoom frames attempt env ↔ HasRoom rest attempt later := by
  unfold HasRoom
  rw [← h.tailBytes, ← h'.tailBytes, Frame.length_encode, Frame.length_encode]
  rfl

include hsound hreliable hsound' hreliable'

/-- A partition answers an attempt alike on whatever disk it is kept. -/
theorem partition_append_alike (durable forced : Bool) (attempt : RawAttempt) :
    unstampedResult (p.append durable attempt env).1
        = unstampedResult (p.append forced attempt later).1 ∧
      (p.append durable attempt env).2.1 = (p.append forced attempt later).2.1 := by
  by_cases hexpected : attempt.expected = p.tail
  · cases hhandle : p.handle with
    | none =>
      simp only [Partition.append, hexpected, hhandle, ne_eq, not_true_eq_false, if_false]
      exact ⟨trivial, trivial⟩
    | some handle =>
      obtain ⟨file, rfl, -⟩ := h.handle handle hhandle
      by_cases hroom : HasRoom frames attempt env
      · have hroom' := (hasRoom_iff h h').1 hroom
        obtain ⟨after, last, hrun, -⟩ :=
          Partition.append_of_room h hsound hreliable durable attempt hexpected hhandle hroom
        obtain ⟨after', last', hrun', -⟩ :=
          Partition.append_of_room h' hsound' hreliable' forced attempt hexpected hhandle hroom'
        rw [hrun, hrun', partition_of_append hrun, partition_of_append hrun']
        exact ⟨rfl, rfl⟩
      · have hroom' := fun h'' => hroom ((hasRoom_iff h h').2 h'')
        obtain ⟨last, hrun, -⟩ :=
          Partition.append_of_no_room h hsound hreliable durable attempt hexpected hhandle hroom
        obtain ⟨last', hrun', -⟩ :=
          Partition.append_of_no_room h' hsound' hreliable' forced attempt hexpected hhandle hroom'
        rw [hrun, hrun']
        exact ⟨rfl, rfl⟩
  · simp only [Partition.append, hexpected, ne_eq, not_false_eq_true, if_true]
    exact ⟨trivial, trivial⟩

end Partitions

/-! ## Topics -/

/-- Topics with the same indexes and limits; their consumers may have come to different points. -/
structure Alike (topic other : Topic) : Prop where
  name_eq : topic.name = other.name
  partitions_eq : topic.partitions = other.partitions
  maxEntryBytes_eq : topic.maxEntryBytes = other.maxEntryBytes

theorem Alike.refl (topic : Topic) : Alike topic topic := ⟨rfl, rfl, rfl⟩

theorem Alike.symm (h : Alike topic other) : Alike other topic :=
  ⟨h.name_eq.symm, h.partitions_eq.symm, h.maxEntryBytes_eq.symm⟩

theorem Alike.trans {third : Topic} (h : Alike topic other) (hnext : Alike other third) :
    Alike topic third :=
  ⟨h.name_eq.trans hnext.name_eq, h.partitions_eq.trans hnext.partitions_eq,
    h.maxEntryBytes_eq.trans hnext.maxEntryBytes_eq⟩

section Topics

variable (halike : Alike topic other) (h : Agrees config topic env.disk folder commits)
  (h' : Agrees config other later.disk place others)

include halike h h'

/-- **Topics with the same indexes answer an attempt alike**, and have the same indexes
afterwards. -/
theorem append_alike (attempt : RawAttempt) :
    unstampedResult (topic.append attempt env).1 = unstampedResult (other.append attempt later).1 ∧
      Alike (topic.append attempt env).2.1 (other.append attempt later).2.1 := by
  obtain ⟨hname, hpartitions, hmax⟩ := halike
  unfold Topic.append Topic.partition
  simp only [← hname, ← hpartitions]
  cases hp : topic.partitions[attempt.expected.partition.toNat]? with
  | none => exact ⟨rfl, hname, hpartitions, hmax⟩
  | some p =>
    have hrefusal : other.refusal? attempt = topic.refusal? attempt := by
      unfold Topic.refusal?
      rw [hmax]
    simp only [hrefusal]
    cases topic.refusal? attempt with
    | some e => exact ⟨rfl, hname, hpartitions, hmax⟩
    | none =>
      have hmem := List.mem_of_getElem? hp
      have hsame := partition_append_alike (h.holds.partition p hmem) h.sound h.reliable
        (h'.holds.partition p (hpartitions ▸ hmem)) h'.sound h'.reliable topic.durable
        other.durable attempt
      refine ⟨hsame.1, hname, ?_, hmax⟩
      simp only [Topic.putPartition, ← hpartitions, hsame.2]

end Topics

/-- So they answer any row of attempts alike. -/
theorem appendAll_alike (attempts : List RawAttempt) :
    ∀ {topic other : Topic} {env later : Env} {commits others : List RawCommit},
      Alike topic other → Agrees config topic env.disk folder commits →
      Agrees config other later.disk place others →
      (appendAll attempts topic env).1.map unstampedResult
          = (appendAll attempts other later).1.map unstampedResult ∧
        Alike (appendAll attempts topic env).2.1 (appendAll attempts other later).2.1 := by
  induction attempts with
  | nil => exact fun halike _ _ => ⟨rfl, halike⟩
  | cons attempt rest ih =>
    intro topic other env later commits others halike h h'
    obtain ⟨hresult, hmoved⟩ := append_alike halike h h' attempt
    rcases hrun : topic.append attempt env with ⟨result, moved, reached⟩
    rcases hrun' : other.append attempt later with ⟨result', moved', reached'⟩
    rw [hrun, hrun'] at hresult hmoved
    obtain ⟨hagrees, -⟩ := Topic.append_agrees h attempt hrun
    obtain ⟨hagrees', -⟩ := Topic.append_agrees h' attempt hrun'
    obtain ⟨hresults, hlast⟩ := ih hmoved hagrees hagrees'
    simp only [appendAll, hrun, hrun', List.map_cons, hresult, hresults]
    exact ⟨trivial, hlast⟩

end Batching

end CommitLog
