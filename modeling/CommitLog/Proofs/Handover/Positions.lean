import CommitLog.Proofs.Handover.Run

/-!
# Positions in a row of commits

A commit holds at least one entry, so how many entries come before a place tells the place. The
extent of what has been seen of a partition is the position that a follower has reached; from there
on the partition gives back what is still to come.
-/

namespace CommitLog.Handover

open CommitLog.Topic (Agrees Folder IsHistory)

variable {config : Config} {topic : Topic} {disk : Disk} {folder : Folder}
  {commits row front later other : List RawCommit} {commit : RawCommit} {number : UInt32}
  {checkpoint : Revisions}

/-! ## Extents -/

@[simp] theorem extent_nil : extent [] = 0 := rfl

@[simp] theorem extent_append (front later : List RawCommit) :
    extent (front ++ later) = extent front + extent later := by
  rw [extent, List.map_append, Partition.entryCount_append]
  rfl

@[simp] theorem extent_cons (commit : RawCommit) (later : List RawCommit) :
    extent (commit :: later) = commit.entries.length + extent later := rfl

theorem eq_nil_of_extent_eq_zero (hpos : ∀ commit ∈ row, commit.entries ≠ [])
    (h : extent row = 0) : row = [] := by
  cases row with
  | nil => rfl
  | cons commit later =>
    have hone := List.length_pos_iff.2 (hpos commit List.mem_cons_self)
    rw [extent_cons] at h
    omega

/-- Of two fronts of a row the one of no greater extent is a front of the other. -/
theorem prefix_of_extent_le (hpos : ∀ commit ∈ row, commit.entries ≠ []) (hfront : front <+: row)
    (hother : other <+: row) (hle : extent front ≤ extent other) : front <+: other := by
  rcases List.prefix_or_prefix_of_prefix hfront hother with h | ⟨rest, rfl⟩
  · exact h
  · rw [extent_append] at hle
    have hnone : rest = [] := eq_nil_of_extent_eq_zero
      (fun commit hcommit => hpos commit (hfront.subset (List.mem_append_right _ hcommit)))
      (by omega)
    exact ⟨[], by rw [hnone, List.append_nil, List.append_nil]⟩

/-- A front of a row that has all of its extent is the row. -/
theorem eq_of_extent_le (hpos : ∀ commit ∈ row, commit.entries ≠ []) (hfront : front <+: row)
    (hle : extent row ≤ extent front) : front = row := by
  have hback := prefix_of_extent_le hpos (List.prefix_refl row) hfront hle
  exact hfront.eq_of_length_le hback.length_le

theorem entries_ne_of_mem (h : IsHistory config commits) (number : UInt32) :
    ∀ commit ∈ commitsIn commits number, commit.entries ≠ [] :=
  fun commit hcommit => (h.isCommit commit (List.mem_filter.1 hcommit).1).entries_ne

/-! ## Places -/

/-- A commit starts behind the commits of its partition that come before it. -/
theorem place_of_split (h : IsHistory config commits)
    (hlimit : extent (commitsIn commits number) ≤ Disk.maxFileLength)
    (hsplit : commitsIn commits number = front ++ commit :: later) :
    commit.expected.offset.toNat = extent front ∧ commit.actual.partition = number ∧
      commit.actual.offset.toNat = extent front + commit.entries.length := by
  have hrow := Partition.getElem?_commitsFrom number 0 (framesIn commits number) front.length
  have hframe : (framesIn commits number)[front.length]? = some commit.frame := by
    rw [framesIn, hsplit, List.getElem?_map, List.getElem?_append_right (Nat.le_refl _),
      Nat.sub_self, List.getElem?_cons_zero, Option.map_some]
  have htake : (framesIn commits number).take front.length = front.map Commit.frame := by
    unfold framesIn
    rw [hsplit, ← List.map_take, List.take_left]
  rw [← h.row number, hframe, htake, hsplit, List.getElem?_append_right (Nat.le_refl _),
    Nat.sub_self, List.getElem?_cons_zero, Option.map_some, Option.some.injEq, Nat.zero_add] at hrow
  -- no file is long enough for a position to overflow
  have hbound : Disk.maxFileLength < 2 ^ 64 := by decide
  rw [hsplit, extent_append, extent_cons] at hlimit
  have hstart : (UInt64.ofNat (extent front)).toNat = extent front := by
    rw [UInt64.toNat_ofNat']
    exact Nat.mod_eq_of_lt (by omega)
  have hexpected : commit.expected = ⟨number, UInt64.ofNat (extent front)⟩ := by
    rw [hrow]
    rfl
  have hactual : commit.actual
      = (Revision.mk number (UInt64.ofNat (extent front))).advancedBy commit.entries.length := by
    rw [hrow]
    rfl
  refine ⟨by rw [hexpected, hstart], by rw [hactual]; rfl, ?_⟩
  rw [hactual, Revision.toNat_offset_advancedBy, hstart, Nat.min_eq_left]
  have hmax : Revision.maxOffset = 2 ^ 64 - 1 := by decide
  omega

/-- What starts at or behind a place between two commits. -/
theorem filter_of_split (h : IsHistory config commits)
    (hlimit : extent (commitsIn commits number) ≤ Disk.maxFileLength)
    (hsplit : commitsIn commits number = front ++ later) {offset : UInt64}
    (hoffset : extent front = offset.toNat) :
    (commitsIn commits number).filter (fun commit => decide (offset ≤ commit.expected.offset))
      = later := by
  -- the commits up to the place end no later than it, and the others start no earlier
  have hfront : front.filter (fun commit => decide (offset ≤ commit.expected.offset)) = [] := by
    rw [List.filter_eq_nil_iff]
    intro commit hcommit
    obtain ⟨before, behind, rfl⟩ := List.append_of_mem hcommit
    rw [List.append_assoc, List.cons_append] at hsplit
    obtain ⟨hplace, -, -⟩ := place_of_split h hlimit hsplit
    have hentries : 0 < commit.entries.length := by
      refine List.length_pos_iff.2 (entries_ne_of_mem h number commit ?_)
      rw [hsplit]
      simp
    rw [extent_append, extent_cons] at hoffset
    rw [decide_eq_true_eq, UInt64.le_iff_toNat_le]
    omega
  have hlater : later.filter (fun commit => decide (offset ≤ commit.expected.offset))
      = later := by
    rw [List.filter_eq_self]
    intro commit hcommit
    obtain ⟨before, behind, rfl⟩ := List.append_of_mem hcommit
    rw [← List.append_assoc] at hsplit
    obtain ⟨hplace, -, -⟩ := place_of_split h hlimit hsplit
    rw [extent_append] at hplace
    rw [decide_eq_true_eq, UInt64.le_iff_toNat_le]
    omega
  rw [hsplit, List.filter_append, hfront, hlater, List.nil_append]

/-- What comes after a checkpoint that lies between two commits. -/
theorem commitsAfter_of_split (h : IsHistory config commits)
    (hlimit : extent (commitsIn commits number) ≤ Disk.maxFileLength)
    (hsplit : commitsIn commits number = front ++ later)
    (hcheckpoint : extent front = (checkpoint.get number).offset.toNat) :
    commitsAfter commits checkpoint number = later :=
  filter_of_split h hlimit hsplit hcheckpoint

/-! ## Topics -/

/-- A topic has a partition of every number. -/
theorem numbers_of_agrees (h : Agrees config topic disk folder commits) :
    (List.range topic.partitions.length).map UInt32.ofNat = Topic.partitionNumbers config := by
  rw [h.holds.length_partitions]
  rfl

section Topics

variable (h : Agrees config topic disk folder commits) (hnumber : number < config.partitions)

include h hnumber

theorem extent_le : extent (commitsIn commits number) ≤ Disk.maxFileLength := by
  have hlength := h.holds.length_le h.sound hnumber
  have hcount := Partition.entryCount_le_length (framesIn commits number)
  exact Nat.le_trans hcount hlength

/-- The tail of a partition is the extent of its commits. -/
theorem tails_of_agrees :
    (topic.tails.get number).offset.toNat = extent (commitsIn commits number) := by
  rw [h.holds.get_tails_of_lt hnumber]
  exact Topic.toNat_ofNat_entryCount (h.holds.length_le h.sound hnumber)

/-- A topic that is read from behind some of its commits gives back those that follow. -/
theorem read_of_agrees {start : Revision} (hstart : start.partition = number)
    (hsplit : commitsIn commits number = front ++ later)
    (hoffset : start.offset.toNat = extent front) (count : Nat) :
    topic.read disk start count = .ok (later.take count) := by
  obtain ⟨p, hp, rfl, hholds⟩ := h.holds.exists_partition hnumber
  have hframes : framesIn commits p.number = front.map Commit.frame ++ later.map Commit.frame := by
    unfold framesIn
    rw [hsplit, List.map_append]
  have hrow := h.history.row p.number
  rw [hsplit, hframes, Partition.commitsFrom_append, Nat.zero_add] at hrow
  have hlater : later = commitsFrom p.number (extent front) (later.map Commit.frame) := by
    refine (List.append_inj hrow ?_).2
    have hlength := congrArg List.length
      (Partition.map_frame_commitsFrom p.number 0 (front.map Commit.frame))
    rw [List.length_map, List.length_map] at hlength
    exact hlength.symm
  have hcommits := h.history.isCommit_framesIn p.number
  rw [hframes] at hholds hcommits
  have hread := Partition.read_of_holds hholds (h.maxEntryBytes ▸ hcommits) topic.maxMapBytes
    hoffset count
  unfold Topic.read
  rw [hstart, Topic.partition, hp]
  refine hread.trans ?_
  rw [hlater]
  simp only [Partition.map_frame_commitsFrom]
  rfl

end Topics

end CommitLog.Handover
