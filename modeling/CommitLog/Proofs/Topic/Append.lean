import CommitLog.Proofs.Revisions
import CommitLog.Proofs.Topic.Opening

/-!
# Appending to a topic

An attempt is an affair of the partition that it names. `append_cases` says what it comes to: one
more frame in the file and in the index of that partition, or nothing at all. A commit starts at the
tail that its writer expected, and is small enough for every later scan with the same limit.
-/

namespace CommitLog.Topic

open CommitLog.Disk (Place Keeps)
open CommitLog.Frame (IsCommit)
open CommitLog.Partition (encodeAll entryCount HasRoom)

variable {config : Config} {topic : Topic} {disk : Disk} {folder : Folder}
  {frames : UInt32 → List Frame} {number : UInt32} {p : Partition}

/-! ## Partitions by number -/

theorem putPartition_self (hp : topic.partitions[number.toNat]? = some p) :
    topic.putPartition number p = topic := by
  obtain ⟨hi, rfl⟩ := List.getElem?_eq_some_iff.1 hp
  unfold putPartition
  rw [List.set_getElem_self]

theorem getElem?_partitionNumbers {i : Nat} (h : (partitionNumbers config)[i]? = some number) :
    number.toNat = i ∧ number < config.partitions := by
  have hlt := config.partitions.toNat_lt
  unfold partitionNumbers at h
  rw [List.getElem?_map, Option.map_eq_some_iff] at h
  obtain ⟨n, hn, rfl⟩ := h
  obtain ⟨hi, hn⟩ := List.getElem?_eq_some_iff.1 hn
  rw [List.length_range] at hi
  rw [List.getElem_range] at hn
  subst hn
  rw [UInt32.lt_iff_toNat_lt, UInt32.toNat_ofNat']
  omega

section Numbers

variable (h : topic.partitions.map Partition.number = partitionNumbers config)

include h

theorem length_of_numbers : topic.partitions.length = config.partitions.toNat := by
  have hlength := congrArg List.length h
  simpa [partitionNumbers] using hlength

/-- The partition at an index is that of the number. -/
theorem number_of_numbers (hp : topic.partitions[number.toNat]? = some p) :
    p.number = number ∧ number < config.partitions := by
  have hget : (partitionNumbers config)[number.toNat]? = some p.number := by
    rw [← h, List.getElem?_map, hp, Option.map_some]
  obtain ⟨hvalue, hlt⟩ := getElem?_partitionNumbers hget
  obtain rfl := UInt32.toNat.inj hvalue
  exact ⟨rfl, hlt⟩

theorem exists_of_numbers (hnumber : number < config.partitions) :
    ∃ p, topic.partitions[number.toNat]? = some p ∧ p.number = number := by
  have hlt : number.toNat < topic.partitions.length := by
    rw [length_of_numbers h]
    exact UInt32.lt_iff_toNat_lt.1 hnumber
  have hp := List.getElem?_eq_getElem hlt
  exact ⟨_, hp, (number_of_numbers h hp).1⟩

theorem nodup_of_numbers :
    ((topic.partitions.map Partition.tail).map Revision.partition).Nodup := by
  have hsame : (topic.partitions.map Partition.tail).map Revision.partition
      = topic.partitions.map Partition.number := by
    rw [List.map_map]
    rfl
  rw [hsame, h]
  exact nodup_partitionNumbers config

/-- The tail of a partition is found under its number. -/
theorem get_tails_of_numbers (hp : p ∈ topic.partitions) : topic.tails.get p.number = p.tail :=
  Revisions.get_ofList_of_mem (nodup_of_numbers h) (List.mem_map.2 ⟨p, hp, rfl⟩)

/-- The partitions of a topic after one has been put in its place. -/
theorem putPartition_cases_of_numbers {moved q : Partition}
    (hq : q ∈ (topic.putPartition number moved).partitions) :
    q = moved ∨ q ∈ topic.partitions ∧ q.number ≠ number := by
  obtain ⟨i, hi⟩ := List.getElem?_of_mem hq
  unfold putPartition at hi
  rw [List.getElem?_set] at hi
  split at hi
  next =>
    split at hi
    next => exact Or.inl (Option.some.inj hi).symm
    next => simp at hi
  next hne =>
    refine Or.inr ⟨List.mem_of_getElem? hi, ?_⟩
    -- partitions stand at their numbers, and this one stands elsewhere
    rintro rfl
    have hget : (partitionNumbers config)[i]? = some q.number := by
      rw [← h, List.getElem?_map, hi, Option.map_some]
    exact hne (getElem?_partitionNumbers hget).1

theorem numbers_putPartition {moved : Partition} (hnumber : number < config.partitions)
    (hmoved : moved.number = number) :
    (topic.putPartition number moved).partitions.map Partition.number
      = partitionNumbers config := by
  obtain ⟨p, hp, hsame⟩ := exists_of_numbers h hnumber
  have hkept : (topic.partitions.map Partition.number)[number.toNat]? = some number := by
    rw [List.getElem?_map, hp, Option.map_some, hsame]
  obtain ⟨hi, hvalue⟩ := List.getElem?_eq_some_iff.1 hkept
  have hset := List.set_getElem_self hi
  rw [hvalue, h] at hset
  unfold putPartition
  rw [List.map_set, hmoved, h]
  exact hset

end Numbers

namespace Holds

variable (h : topic.Holds disk folder (partitionNumbers config) frames)

include h

theorem length_partitions : topic.partitions.length = config.partitions.toNat :=
  length_of_numbers h.numbers_eq

/-- The partition at an index is that of the number. -/
theorem number_of_getElem? (hp : topic.partitions[number.toNat]? = some p) :
    p.number = number ∧ number < config.partitions := number_of_numbers h.numbers_eq hp

theorem exists_partition (hnumber : number < config.partitions) :
    ∃ p, topic.partitions[number.toNat]? = some p ∧ p.number = number ∧
      p.Holds disk (filePlace folder.directory number) (frames number) := by
  obtain ⟨p, hp, hsame⟩ := exists_of_numbers h.numbers_eq hnumber
  refine ⟨p, hp, hsame, ?_⟩
  have hholds := h.partition p (List.mem_of_getElem? hp)
  rw [hsame] at hholds
  exact hholds

/-- The tail of a partition is where its frames end. -/
theorem get_tails (hp : p ∈ topic.partitions) : topic.tails.get p.number = p.tail :=
  get_tails_of_numbers h.numbers_eq hp

theorem get_tails_of_lt (hnumber : number < config.partitions) :
    topic.tails.get number = ⟨number, UInt64.ofNat (entryCount (frames number))⟩ := by
  obtain ⟨p, hp, rfl, hholds⟩ := h.exists_partition hnumber
  rw [h.get_tails (List.mem_of_getElem? hp), Partition.tail, hholds.tailOffset]

theorem congr {others : UInt32 → List Frame}
    (hsame : ∀ number, number < config.partitions → frames number = others number) :
    topic.Holds disk folder (partitionNumbers config) others where
  numbers_eq := h.numbers_eq
  path_eq := h.path_eq
  partition p hp := by
    have hlt : p.number < config.partitions := by
      rw [← mem_partitionNumbers, ← h.numbers_eq]
      exact List.mem_map_of_mem hp
    rw [← hsame p.number hlt]
    exact h.partition p hp

/-- What happens elsewhere on the disk is no concern of a topic. -/
theorem keeps {after : Disk} {kept : Place → Prop} (hdisk : disk.Sound)
    (hkeeps : Keeps disk after kept)
    (hplaces : ∀ number, number < config.partitions → kept (filePlace folder.directory number)) :
    topic.Holds after folder (partitionNumbers config) frames where
  numbers_eq := h.numbers_eq
  path_eq := h.path_eq
  partition p hp := by
    refine (h.partition p hp).keeps hdisk hkeeps (hplaces p.number ?_)
    rw [← mem_partitionNumbers, ← h.numbers_eq]
    exact List.mem_map_of_mem hp

/-- One partition has moved on to other frames, and the others have not. -/
theorem put {after : Disk} {moved : Partition} {later : List Frame} (hdisk : disk.Sound)
    (hkeeps : Keeps disk after (· ≠ filePlace folder.directory number))
    (hnumber : number < config.partitions) (hmoved : moved.number = number)
    (hpath : moved.path = folder.path.child (fileName number))
    (hholds : moved.Holds after (filePlace folder.directory number) later) :
    (topic.putPartition number moved).Holds after folder (partitionNumbers config)
      (fun other => if other = number then later else frames other) where
  numbers_eq := numbers_putPartition h.numbers_eq hnumber hmoved
  path_eq q hq := by
    rcases putPartition_cases_of_numbers h.numbers_eq hq with rfl | ⟨hmem, -⟩
    · rw [hmoved, hpath]
    · exact h.path_eq q hmem
  partition q hq := by
    rcases putPartition_cases_of_numbers h.numbers_eq hq with rfl | ⟨hmem, hother⟩
    · rw [hmoved, if_pos rfl]
      exact hholds
    · rw [if_neg hother]
      refine (h.partition q hmem).keeps hdisk hkeeps ?_
      intro hsame
      exact hother (filePlace_injective hsame)

end Holds

/-! ## Attempts -/

theorem le_foldl_max (lengths : List Nat) (start : Nat) :
    start ≤ lengths.foldl max start ∧ ∀ n ∈ lengths, n ≤ lengths.foldl max start := by
  induction lengths generalizing start with
  | nil => simp
  | cons first later ih =>
    obtain ⟨hstart, hlater⟩ := ih (max start first)
    rw [List.foldl_cons]
    refine ⟨by omega, ?_⟩
    intro n hn
    rcases List.mem_cons.1 hn with rfl | hn
    · omega
    · exact hlater n hn

/-- No field of an attempt is longer than its longest. -/
theorem length_le_largest (attempt : RawAttempt) :
    ∀ field ∈ attempt.key :: attempt.entries, field.length ≤ attempt.largest := by
  obtain ⟨hkey, hentries⟩ := le_foldl_max (attempt.entries.map List.length) attempt.key.length
  intro field hfield
  rcases List.mem_cons.1 hfield with rfl | hfield
  · exact hkey
  · exact hentries _ (List.mem_map_of_mem hfield)

theorem refusal?_eq_none (attempt : RawAttempt) :
    topic.refusal? attempt = none ↔
      attempt.entries ≠ [] ∧ attempt.largest ≤ topic.maxEntryBytes := by
  unfold refusal?
  cases hentries : attempt.entries with
  | nil => simp [Attempt.isEmpty, hentries]
  | cons entry later => simp [Attempt.isEmpty, hentries]

/-- An attempt that is not refused becomes a frame that every scan with the same limit accepts. -/
theorem isCommit_of_refusal? {attempt : RawAttempt} (h : topic.refusal? attempt = none)
    (hlimit : topic.maxEntryBytes ≤ Frame.maxFieldLength) (id : Identifier) (now : UInt64) :
    IsCommit topic.maxEntryBytes (Partition.frameOf attempt id now) := by
  obtain ⟨hentries, hlargest⟩ := (refusal?_eq_none attempt).1 h
  refine ⟨?_, hentries⟩
  intro field hfield
  have hle := length_le_largest attempt field hfield
  omega

theorem le_maxFieldLength_of_isValid (h : config.isValid = true) :
    config.maxEntryBytes ≤ Frame.maxFieldLength := by
  unfold Config.isValid at h
  rw [Option.isNone_iff_eq_none, Config.problem?] at h
  split at h
  · simp at h
  · split at h
    · simp at h
    · omega

/-! ## Appending -/

/-- What appending an attempt to a topic comes to. -/
inductive Appended (config : Config) (folder : Folder) (frames : UInt32 → List Frame)
    (topic : Topic) (attempt : RawAttempt) (env : Env) :
    Except LogError RawOutcome → Topic → Env → Prop where
  /-- The attempt has become a commit at the tail of its partition. -/
  | committed {commit : RawCommit} {after : Topic} {later : Env}
      (lt : commit.partition < config.partitions)
      (isAttempt : commit = Partition.commitOf attempt env.ids.next.1 env.now)
      (expected : commit.expected = topic.tails.get commit.partition)
      (place : commit
        = commitAt commit.partition (entryCount (frames commit.partition)) commit.frame)
      (isCommit : IsCommit topic.maxEntryBytes commit.frame)
      (only : after = { topic with partitions := after.partitions })
      (keeps : Keeps env.disk later.disk (Place.directory · ≠ folder.directory))
      (now : later.now = env.now)
      (holds : after.Holds later.disk folder (partitionNumbers config) fun number =>
        if number = commit.partition then frames number ++ [commit.frame] else frames number) :
      Appended config folder frames topic attempt env (.ok (.committed commit)) after later
  /-- There is no commit, and the topic is as before. -/
  | refused {result : Except LogError RawOutcome} {later : Env}
      (noCommit : result.toOption.bind Outcome.commit? = none)
      (keeps : Keeps env.disk later.disk (Place.directory · ≠ folder.directory))
      (now : later.now = env.now)
      (holds : topic.Holds later.disk folder (partitionNumbers config) frames) :
      Appended config folder frames topic attempt env result topic later

section Cases

variable (env : Env) (h : topic.Holds env.disk folder (partitionNumbers config) frames)
  (hlimit : topic.maxEntryBytes ≤ Frame.maxFieldLength) (hsound : env.disk.Sound)
  (hreliable : env.disk.Reliable) (attempt : RawAttempt)

include h hlimit hsound hreliable

/-- **Whatever becomes of an attempt, files and indexes tell of the same frames afterwards.** -/
theorem append_cases {result : Except LogError RawOutcome} {after : Topic} {later : Env}
    (hrun : topic.append attempt env = (result, after, later)) :
    Appended config folder frames topic attempt env result after later := by
  have hrefl : Keeps env.disk env.disk (Place.directory · ≠ folder.directory) :=
    Keeps.refl hsound hreliable _
  unfold append partition at hrun
  cases hp : topic.partitions[attempt.expected.partition.toNat]? with
  | none =>
    simp only [hp] at hrun
    obtain ⟨rfl, rfl, rfl⟩ := hrun
    exact .refused rfl hrefl rfl h
  | some p =>
    simp only [hp] at hrun
    cases hrefusal : topic.refusal? attempt with
    | some e =>
      simp only [hrefusal] at hrun
      obtain ⟨rfl, rfl, rfl⟩ := hrun
      exact .refused rfl hrefl rfl h
    | none =>
      simp only [hrefusal] at hrun
      obtain ⟨hnumber, hlt⟩ := h.number_of_getElem? hp
      have hmem := List.mem_of_getElem? hp
      have hholds := h.partition p hmem
      have hpath := h.path_eq p hmem
      rw [hnumber] at hholds hpath
      rcases hmoved : p.append topic.durable attempt env with ⟨made, moved, reached⟩
      rw [hmoved] at hrun
      obtain ⟨rfl, rfl, rfl⟩ := hrun
      have hcases := Partition.append_of_holds hholds hsound hreliable topic.durable attempt hmoved
      have hapart : ∀ place : Place, place.directory ≠ folder.directory →
          place ≠ filePlace folder.directory attempt.expected.partition := by
        intro place hne hsame
        exact hne (congrArg Place.directory hsame)
      cases hcases with
      | committed hexpected hmovedNumber hmovedPath hkeeps hnow hmovedHolds =>
        -- the partition agrees with the topic on what its tail is
        have htail : attempt.expected = topic.tails.get attempt.expected.partition := by
          have hsame := h.get_tails hmem
          rw [hnumber, ← hexpected] at hsame
          exact hsame.symm
        refine .committed hlt rfl htail ?_ (isCommit_of_refusal? hrefusal hlimit _ _) rfl
          (hkeeps.mono hapart) hnow ?_
        · have hstart := h.get_tails_of_lt hlt
          rw [← htail] at hstart
          simp only [Partition.commitOf, commitAt, Commit.partition, Commit.frame, Attempt.size,
            Revision.advancedBy_partition]
          rw [hstart]
        · refine (h.put hsound hkeeps hlt (hmovedNumber.trans hnumber) (hmovedPath.trans hpath)
            hmovedHolds).congr ?_
          intro number _
          by_cases hother : number = attempt.expected.partition
          · subst hother
            rfl
          · exact (if_neg hother).trans (if_neg hother).symm
      | refused hnone hkeeps hnow hsame =>
        rw [putPartition_self hp]
        have hheld := h.put hsound hkeeps hlt hnumber hpath hsame
        rw [putPartition_self hp] at hheld
        refine .refused hnone (hkeeps.mono hapart) hnow (hheld.congr ?_)
        intro number _
        split
        next hother => rw [hother]
        next => rfl

omit hlimit in
/-- An attempt that is not refused, expects the tail and finds room is committed. -/
theorem append_of_room (hlt : attempt.expected.partition < config.partitions)
    (hexpected : attempt.expected = topic.tails.get attempt.expected.partition)
    (hrefusal : topic.refusal? attempt = none)
    (hhandle : ∀ p ∈ topic.partitions, p.handle.isSome = true)
    (hroom : HasRoom (frames attempt.expected.partition) attempt env) :
    ∃ commit after later,
      topic.append attempt env = (.ok (.committed commit), after, later) := by
  obtain ⟨p, hp, hnumber, hholds⟩ := h.exists_partition hlt
  have hmem := List.mem_of_getElem? hp
  have htail : attempt.expected = p.tail := by
    rw [hexpected, ← hnumber, h.get_tails hmem]
  obtain ⟨handle, hsome⟩ := Option.isSome_iff_exists.1 (hhandle p hmem)
  obtain ⟨file, rfl, -⟩ := hholds.handle handle hsome
  obtain ⟨moved, later, hrun, -⟩ := Partition.append_of_room hholds hsound hreliable topic.durable
    attempt htail hsome hroom
  rw [append, partition, hp]
  simp only [hrefusal, hrun]
  exact ⟨_, _, _, rfl⟩

end Cases

end CommitLog.Topic
