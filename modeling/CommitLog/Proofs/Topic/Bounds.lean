import CommitLog.Proofs.Partition.PlainWalk
import CommitLog.Proofs.Topic.Append

/-!
# Topics recovered from any disk

The files that a topic is recovered from need not have been written by a log. Whatever they hold, a
topic that is recovered has its partitions in order, may be appended to exactly if its settings say
so, and its tails count no more entries than there are bytes in its files. Since a file has a
largest size, no tail comes near the largest offset: this is what keeps positions from running into
their limit (`Bounded`, `recover_ready`).
-/

namespace CommitLog.Partition

open CommitLog.Disk (Place Keeps maxFileLength nameLimit)
open CommitLog.Frame (IsCommit)

variable {p : Partition} {disk after : Disk} {place : Place} {frames : List Frame}
  {maxField maxWindow : Nat} {data : Bytes}

/-- A partition counts no more entries than bytes, and its open file has as many bytes at least. -/
structure Bounded (p : Partition) (disk : Disk) : Prop where
  tailOffset_le : p.tailOffset ≤ p.tailBytes
  tailBytes_le : p.tailBytes ≤ maxFileLength
  file : ∀ file, p.handle = some (.file file) →
    file < disk.contents.size ∧ p.tailBytes ≤ (disk.content file).length

/-- Offsets of a bounded partition are far from their limit. -/
theorem Bounded.toNat_tail (h : p.Bounded disk) : p.tail.offset.toNat = p.tailOffset := by
  have hoffset := h.tailOffset_le
  have hbytes := h.tailBytes_le
  have hmax : maxFileLength = 2 ^ 63 - 1 := rfl
  rw [tail, UInt64.toNat_ofNat']
  omega

theorem Holds.bounded (h : p.Holds disk place frames) (hsound : disk.Sound) : p.Bounded disk where
  tailOffset_le := by
    rw [h.tailOffset, h.tailBytes]
    exact entryCount_le_length frames
  tailBytes_le := by
    rw [h.tailBytes]
    exact h.stores.length_le hsound
  file file hhandle := by
    obtain ⟨hentry, hcontent⟩ := h.content hhandle
    refine ⟨hsound.file_lt _ _ hentry, Nat.le_of_eq ?_⟩
    rw [hcontent, h.tailBytes]

end CommitLog.Partition

namespace CommitLog.Topic

open CommitLog.Disk (Place Keeps nameLimit top)
open CommitLog.Partition (encodeAll entryCount locations)

variable {config : Config} {disk after : Disk} {directory root : Path} {place : Place}
  {number : UInt32} {here : Nat} {name : String}

/-! ## One partition -/

/-- A partition that has been recovered at a place, from whatever was there. -/
structure RecoveredAt (config : Config) (place : Place) (number : UInt32) (disk : Disk)
    (p : Partition) : Prop where
  number_eq : p.number = number
  handle : p.handle.isSome = config.openFlags.contains .append
  bounded : p.Bounded disk
  entry : ∀ file, p.handle = some (.file file) → disk.entryAt? place = some (.file file)

theorem RecoveredAt.keeps {kept : Place → Prop} {p : Partition}
    (h : RecoveredAt config place number disk p) (hkeeps : Keeps disk after kept)
    (hplace : kept place) : RecoveredAt config place number after p where
  number_eq := h.number_eq
  handle := h.handle
  bounded := by
    refine ⟨h.bounded.tailOffset_le, h.bounded.tailBytes_le, fun file hhandle => ?_⟩
    have hentry := h.entry file hhandle
    rw [hkeeps.content_kept place file hplace hentry]
    exact ⟨hkeeps.sound.file_lt _ _ (hkeeps.entryAt?_some _ _ hentry),
      (h.bounded.file file hhandle).2⟩
  entry file hhandle := hkeeps.entryAt?_some _ _ (h.entry file hhandle)

theorem recoveredAt_of_holds {p : Partition} {frames : List Frame} (hnumber : p.number = number)
    (hhandle : p.handle.isSome = config.openFlags.contains .append)
    (h : p.Holds disk place frames) (hsound : disk.Sound) :
    RecoveredAt config place number disk p :=
  ⟨hnumber, hhandle, h.bounded hsound, fun _ hopen => (h.content hopen).1⟩

section Partition

variable (hnames : disk.Names (directory.child (fileName number)) place)
  (hshort : place.name.utf8ByteSize ≤ nameLimit) (hsound : disk.Sound) (hreliable : disk.Reliable)
  {p : Partition} (hrun : recoverPartition config directory number disk = (.ok p, after))

include hnames hshort hsound hreliable hrun

/-- A file that a partition is recovered from may hold anything. -/
theorem recoveredAt_of_file {file : Nat} (hentry : disk.entryAt? place = some (.file file)) :
    Keeps disk after (· ≠ place) ∧ RecoveredAt config place number after p := by
  have hread := Disk.read_of_file hnames hshort hentry
  cases hscan : Partition.scan config.maxEntryBytes config.effectiveMaxMapBytes
      (disk.content file) with
  | error failure =>
    have hfound := Partition.scanFile_of_read hread config.maxEntryBytes config.effectiveMaxMapBytes
    rw [hscan] at hfound
    unfold recoverPartition at hrun
    simp only [hfound] at hrun
    cases (Prod.mk.inj hrun).1
  | ok found =>
    obtain ⟨frames, rest, torn, -, hcontent, htorn, rfl⟩ := Partition.exists_frames_of_scan hscan
    by_cases hrepair : rest = [] ∨
        config.repairTornTail = true ∧ config.openFlags.contains .append = true
    · obtain ⟨q, last, hagain, hnumber, -, hhandle, hkeeps, hholds⟩ := recoverPartition_of_scan
        hnames hshort hsound hreliable hentry hcontent hscan htorn hrepair
      obtain ⟨hp, rfl⟩ := Prod.mk.inj (hrun.symm.trans hagain)
      obtain rfl := Except.ok.inj hp
      exact ⟨hkeeps, recoveredAt_of_holds hnumber hhandle hholds hkeeps.sound⟩
    · -- what is torn is an error, or is passed over by whoever may only read
      obtain ⟨hrest, hrepair⟩ := not_or.1 hrepair
      obtain ⟨found, rfl⟩ := Option.isSome_iff_exists.1 (htorn.2 hrest)
      have hfound := Partition.scanFile_of_scan hread hscan
      cases hcuts : config.repairTornTail with
      | false => simp [recoverPartition, hfound, repair, hcuts] at hrun
      | true =>
        have happend : config.openFlags.contains .append = false := by simpa [hcuts] using hrepair
        simp only [recoverPartition, hfound, repair, openFile, hcuts, happend, Bool.not_true,
          Bool.false_eq_true, if_false, Partition.recordAll_locations] at hrun
        obtain ⟨hp, rfl⟩ := Prod.mk.inj hrun
        obtain rfl := Except.ok.inj hp
        have hle := hsound.length_le file
        rw [hcontent, List.length_append] at hle
        have hentries := Partition.entryCount_le_length frames
        refine ⟨Keeps.refl hsound hreliable _, rfl, happend.symm, ⟨hentries, ?_, by simp⟩, by simp⟩
        show (encodeAll frames).length ≤ _
        omega

/-- **Recovering a partition from whatever stands at its place** either fails or ends with a tail
that its file accounts for. -/
theorem recoveredAt_of_recoverPartition :
    Keeps disk after (· ≠ place) ∧ RecoveredAt config place number after p := by
  have hresolve := Disk.resolve_of_names hnames
  rw [Disk.lookup_of_short hshort] at hresolve
  cases hentry : disk.entryAt? place with
  | none =>
    obtain ⟨result, last, hagain, hcases⟩ :=
      recoverPartition_of_none hnames hshort hsound hreliable hentry
    obtain ⟨rfl, rfl⟩ := Prod.mk.inj (hrun.symm.trans hagain)
    cases hcases with
    | opened hnumber _ hhandle hkeeps hholds =>
      exact ⟨hkeeps, recoveredAt_of_holds hnumber hhandle hholds hkeeps.sound⟩
  | some entry =>
    rw [hentry] at hresolve
    cases entry with
    | file file => exact recoveredAt_of_file hnames hshort hsound hreliable hrun hentry
    | directory there =>
      simp [recoverPartition, Partition.scanFile, Disk.read, hresolve] at hrun
    | device =>
      -- the device reads as empty, and whoever appends to it holds no file
      have hends := Disk.endsInDirectory_of_names hnames
      have hfound : Partition.scanFile disk (directory.child (fileName number))
          config.maxEntryBytes config.effectiveMaxMapBytes = .ok .empty := by
        have hread : disk.read (directory.child (fileName number)) = .ok [] := by
          simp [Disk.read, hresolve]
        have hnone : ∀ frame ∈ ([] : List Frame), frame.IsCommit config.maxEntryBytes := by simp
        exact Partition.scanFile_of_scan hread (Partition.scan_encodeAll hnone _)
      have hempty : ∀ handle : Option Disk.Handle,
          handle.isSome = config.openFlags.contains .append →
          (∀ file, handle ≠ some (.file file)) →
          RecoveredAt config place number disk
            { Partition.recordAll { number, path := directory.child (fileName number) } []
              with handle } := by
        intro handle hhandle hnone
        exact ⟨rfl, hhandle, ⟨Nat.le_refl 0, Nat.zero_le _, fun file h => absurd h (hnone file)⟩,
          fun file h => absurd h (hnone file)⟩
      cases happend : config.openFlags.contains .append with
      | false =>
        simp [recoverPartition, hfound, repair, Partition.Scan.empty, openFile, happend] at hrun
        obtain ⟨rfl, rfl⟩ := hrun
        exact ⟨Keeps.refl hsound hreliable _, hempty none happend.symm (by simp)⟩
      | true =>
        simp [recoverPartition, hfound, repair, Partition.Scan.empty, openFile, happend,
          Disk.openAppend, hends, hresolve] at hrun
        obtain ⟨rfl, rfl⟩ := hrun
        exact ⟨Keeps.refl hsound hreliable _, hempty (some .device) happend.symm (by simp)⟩

end Partition

/-! ## All partitions -/

/-- A topic whose partitions are in order and whose tails its files account for. -/
structure Ready (config : Config) (topic : Topic) (disk : Disk) : Prop where
  maxEntryBytes : topic.maxEntryBytes = config.maxEntryBytes
  numbers_eq : topic.partitions.map Partition.number = partitionNumbers config
  handle : ∀ p ∈ topic.partitions, p.handle.isSome = config.openFlags.contains .append
  bounded : ∀ p ∈ topic.partitions, p.Bounded disk

/-- Partitions that are recovered one after another do not come in each other's way. -/
theorem recoverPartitions_ready : ∀ (numbers : List UInt32) (disk : Disk) {ps : List Partition},
    numbers.Nodup → disk.Sound → disk.Reliable →
    disk.follow (.directory top) directory.segments = .ok (.directory here) →
    recoverPartitions config directory numbers disk = (.ok ps, after) →
    (Keeps disk after fun place => ∀ number ∈ numbers, place ≠ filePlace here number) ∧
      ps.map Partition.number = numbers ∧
      ∀ p ∈ ps, RecoveredAt config (filePlace here p.number) p.number after p := by
  intro numbers
  induction numbers with
  | nil =>
    intro disk ps _ hsound hreliable _ hrun
    obtain ⟨hps, rfl⟩ := Prod.mk.inj hrun
    obtain rfl := Except.ok.inj hps
    exact ⟨Keeps.refl hsound hreliable _, rfl, by simp⟩
  | cons number later ih =>
    intro disk ps hnodup hsound hreliable hfollow hrun
    obtain ⟨hnumber, hlater⟩ := List.nodup_cons.1 hnodup
    unfold recoverPartitions at hrun
    rcases hone : recoverPartition config directory number disk with ⟨result, middle⟩
    cases result with
    | error e => simp [hone] at hrun
    | ok p =>
      rcases hmore : recoverPartitions config directory later middle with ⟨others, last⟩
      simp only [hone, hmore, Prod.mk.injEq] at hrun
      obtain ⟨hps, rfl⟩ := hrun
      cases others with
      | error e => simp [Functor.map, Except.map] at hps
      | ok others =>
        obtain rfl := Except.ok.inj hps
        cases hrefused : Disk.refusal? (directory.child (fileName number)) with
        | some failure =>
          obtain ⟨e, hfail⟩ := recoverPartition_of_refused hrefused
          rw [hfail] at hone
          simp at hone
        | none =>
          have hnames := Disk.names_child hfollow (isName_fileName number) hrefused
          obtain ⟨hkeeps, hp⟩ := recoveredAt_of_recoverPartition hnames (short_fileName number)
            hsound hreliable hone
          obtain ⟨hrest, hnumbers, hothers⟩ := ih middle hlater hkeeps.sound hkeeps.reliable
            (hkeeps.follow hsound hsound.top_lt hfollow) hmore
          refine ⟨?_, by rw [List.map_cons, hp.number_eq, hnumbers], ?_⟩
          · refine (hkeeps.mono fun place hplace => ?_).trans (hrest.mono fun place hplace => ?_)
            · exact hplace number List.mem_cons_self
            · intro other hother
              exact hplace other (List.mem_cons_of_mem _ hother)
          · intro q hq
            rcases List.mem_cons.1 hq with rfl | hq
            · rw [hp.number_eq]
              refine hp.keeps hrest fun other hother hsame => ?_
              exact hnumber (filePlace_injective hsame ▸ hother)
            · exact hothers q hq

/-- The directory of a topic that is recovered has been there or is made. -/
theorem follow_of_ensureDirectory (hname : isValidName name = true)
    (hroot : disk.follow (.directory top) root.segments = .ok (.directory here))
    (hsound : disk.Sound) (hreliable : disk.Reliable)
    (hrun : ensureDirectory config (root.child name) name disk = (.ok (), after)) :
    after.Sound ∧ after.Reliable ∧ ∃ there,
      after.follow (.directory top) (root.child name).segments = .ok (.directory there) := by
  have hfollow : ∀ last : Disk, last.Names (root.child name) ⟨here, name⟩ →
      name.utf8ByteSize ≤ nameLimit → ∀ there,
      last.entryAt? ⟨here, name⟩ = some (.directory there) →
      last.follow (.directory top) (root.child name).segments = .ok (.directory there) := by
    intro last hnames hshort there hthere
    refine Disk.follow_of_resolve ?_
    rw [Disk.resolve_of_names hnames, Disk.lookup_of_short (by exact hshort), hthere]
  by_cases hentry : disk.entryAt? ⟨here, name⟩ = none ∨
      ∃ there, disk.entryAt? ⟨here, name⟩ = some (.directory there)
  · rcases ensureDirectory_cases config hname hroot hentry with
      ⟨e, hfail⟩ | ⟨hnames, hshort, ⟨hsame, there, hthere⟩ | ⟨hmade, hnone, -⟩⟩
    · simp [hfail] at hrun
    · obtain ⟨-, rfl⟩ := Prod.mk.inj (hrun.symm.trans hsame)
      exact ⟨hsound, hreliable, there, hfollow _ hnames hshort there hthere⟩
    · obtain ⟨-, rfl⟩ := Prod.mk.inj (hrun.symm.trans hmade)
      have hplace := Disk.directory_lt_of_names hnames hsound
      have hkeeps := Disk.keeps_createDirectory hsound hreliable hplace hnone
      refine ⟨hkeeps.sound, hkeeps.reliable, _,
        hfollow _ (hkeeps.names hsound hnames) hshort disk.directories.size ?_⟩
      rw [Disk.entryAt?_createDirectory hplace, if_pos rfl]
  · -- something else of that name is in the way
    obtain ⟨hsome, hother⟩ := not_or.1 hentry
    obtain ⟨entry, hentry⟩ := Option.ne_none_iff_exists'.1 hsome
    have hdirectory : disk.isDirectory (root.child name) = false := by
      refine Disk.isDirectory_of_resolve fun there hresolve => hother ⟨there, ?_⟩
      obtain ⟨found, hfound, -, -, hthere⟩ :=
        Disk.exists_names_of_resolve (isName_of_isValidName hname) hresolve
      rw [hroot] at hfound
      obtain rfl := Disk.Entry.directory.inj (Except.ok.inj hfound)
      exact hthere
    unfold ensureDirectory at hrun
    rw [hdirectory, if_neg Bool.false_ne_true] at hrun
    cases hrefused : Disk.refusal? (root.child name) with
    | some failure =>
      rw [Disk.makeDirectories_of_refused hrefused] at hrun
      split at hrun <;> cases (Prod.mk.inj hrun).1
    | none =>
      have hnames := Disk.names_child hroot (isName_of_isValidName hname) hrefused
      have hmake : ∃ failure, disk.makeDirectories (root.child name) = (.error failure, disk) := by
        rcases Nat.lt_or_ge nameLimit name.utf8ByteSize with hlong | hshort
        · exact ⟨_, Disk.makeDirectories_of_long hnames hlong⟩
        · refine ⟨.alreadyExists, Disk.makeDirectories_of_error ?_ (by simp) hdirectory⟩
          unfold Disk.makeDirectory
          rw [Disk.place_of_names hnames]
          have hlookup := @Disk.lookup_of_short disk ⟨here, name⟩ hshort
          rw [hentry] at hlookup
          simp only [hlookup]
      obtain ⟨failure, hmake⟩ := hmake
      rw [hmake] at hrun
      split at hrun <;> cases (Prod.mk.inj hrun).1

/-- **A topic that is recovered from any disk is ready**: its partitions are in order, and its tails
are no larger than its files. -/
theorem recover_ready {topic : Topic}
    (hroot : disk.follow (.directory top) root.segments = .ok (.directory here))
    (hsound : disk.Sound) (hreliable : disk.Reliable)
    (hrun : recover config root name disk = (.ok topic, after)) : Ready config topic after := by
  unfold recover at hrun
  cases hname : isValidName name with
  | false => simp [hname] at hrun
  | true =>
    rw [hname] at hrun
    rcases hensure : ensureDirectory config (root.child name) name disk with ⟨result, made⟩
    cases result with
    | error e => simp [hensure] at hrun
    | ok done =>
      obtain ⟨hmade, hquiet, there, hfollow⟩ :=
        follow_of_ensureDirectory hname hroot hsound hreliable hensure
      rcases hall : recoverPartitions config (root.child name) (partitionNumbers config) made with
        ⟨result, last⟩
      simp only [Bool.not_true, Bool.false_eq_true, if_false, hensure, hall,
        Prod.mk.injEq] at hrun
      obtain ⟨htopic, rfl⟩ := hrun
      cases result with
      | error e => simp [Except.map] at htopic
      | ok ps =>
        obtain rfl := Except.ok.inj htopic
        obtain ⟨-, hnumbers, hps⟩ := recoverPartitions_ready _ made (nodup_partitionNumbers config)
          hmade hquiet hfollow hall
        exact ⟨rfl, hnumbers, fun p hp => (hps p hp).handle, fun p hp => (hps p hp).bounded⟩

end CommitLog.Topic
