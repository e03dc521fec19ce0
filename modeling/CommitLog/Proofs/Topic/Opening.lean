import CommitLog.Proofs.Topic.PartitionFile

/-!
# Opening a topic

Opening a topic makes its directory if it is missing, and recovers every partition from its file.
Since each file has a place of its own, no partition can come in the way of another. Nothing else on
the disk is touched. `recover_cases` says what becomes of the whole topic: either an error, and
every file holds what it held, or partitions that hold the whole frames of their files.
-/

namespace CommitLog.Topic

open CommitLog.Disk (Place Keeps nameLimit top)
open CommitLog.Frame (IsCommit)
open CommitLog.Partition (encodeAll Leftover)

variable {config : Config} {disk : Disk} {number : UInt32} {here : Nat}

/-! ## All partitions -/

section Partitions

variable (config : Config) (directory : Path) (here : Nat) (frames : UInt32 → List Frame)
  (leftover : UInt32 → Bytes)

/-- What stands in the files of partitions before they are recovered: whole frames, and behind them
at most what recovering cuts off. -/
structure Recoverable (disk : Disk) (numbers : List UInt32) : Prop where
  sound : disk.Sound
  reliable : disk.Reliable
  names : ∀ number, Disk.refusal? (directory.child (fileName number)) = none →
    disk.Names (directory.child (fileName number)) (filePlace here number)
  stores : ∀ number ∈ numbers,
    disk.Stores (filePlace here number) (encodeAll (frames number) ++ leftover number)
  isCommit : ∀ number ∈ numbers, ∀ frame ∈ frames number, IsCommit config.maxEntryBytes frame
  isLeftover : ∀ number ∈ numbers, Leftover config.maxEntryBytes (leftover number)
  repair : ∀ number ∈ numbers, leftover number = [] ∨
    config.repairTornTail = true ∧ config.openFlags.contains .append = true

/-- A partition that has been opened at its place. -/
structure Opened (disk : Disk) (p : Partition) : Prop where
  path_eq : p.path = directory.child (fileName p.number)
  handle : p.handle.isSome = config.openFlags.contains .append
  holds : p.Holds disk (filePlace here p.number) (frames p.number)

variable {config directory here frames leftover}

theorem Recoverable.tail {numbers : List UInt32}
    (h : Recoverable config directory here frames leftover disk (number :: numbers))
    (hnumber : number ∉ numbers) {after : Disk}
    (hkeeps : Keeps disk after (· ≠ filePlace here number)) :
    Recoverable config directory here frames leftover after numbers where
  sound := hkeeps.sound
  reliable := hkeeps.reliable
  names other hallowed := hkeeps.names h.sound (h.names other hallowed)
  stores other hother := by
    refine hkeeps.stores ?_ (h.stores other (List.mem_cons_of_mem _ hother))
    intro hsame
    exact hnumber (filePlace_injective hsame ▸ hother)
  isCommit other hother := h.isCommit other (List.mem_cons_of_mem _ hother)
  isLeftover other hother := h.isLeftover other (List.mem_cons_of_mem _ hother)
  repair other hother := h.repair other (List.mem_cons_of_mem _ hother)

theorem Opened.keeps {after : Disk} {p : Partition} {kept : Place → Prop}
    (h : Opened config directory here frames disk p) (hdisk : disk.Sound)
    (hkeeps : Keeps disk after kept)
    (hplace : kept (filePlace here p.number)) : Opened config directory here frames after p :=
  ⟨h.path_eq, h.handle, h.holds.keeps hdisk hkeeps hplace⟩

/-- What recovering partitions comes to. -/
structure RecoveredAll (config : Config) (directory : Path) (here : Nat)
    (frames : UInt32 → List Frame) (leftover : UInt32 → Bytes) (disk : Disk) (numbers : List UInt32)
    (result : Except LogError (List Partition)) (after : Disk) : Prop where
  keeps : Keeps disk after fun place => ∀ number ∈ numbers, place ≠ filePlace here number
  stores : ∀ number ∈ numbers,
    after.Stores (filePlace here number) (encodeAll (frames number)) ∨
      after.Stores (filePlace here number) (encodeAll (frames number) ++ leftover number)
  opened : ∀ ps, result = .ok ps →
    ps.map Partition.number = numbers ∧ ∀ p ∈ ps, Opened config directory here frames after p

/-- Recovering partitions is recovering one after another, each at its own place. -/
theorem recoverPartitions_cases : ∀ (numbers : List UInt32) (disk : Disk), numbers.Nodup →
    Recoverable config directory here frames leftover disk numbers →
    ∃ result after, recoverPartitions config directory numbers disk = (result, after) ∧
      RecoveredAll config directory here frames leftover disk numbers result after := by
  intro numbers
  induction numbers with
  | nil =>
    intro disk _ h
    refine ⟨.ok [], disk, rfl, Keeps.refl h.sound h.reliable _, by simp, ?_⟩
    intro ps hps
    obtain rfl := Except.ok.inj hps
    exact ⟨rfl, by simp⟩
  | cons number later ih =>
    intro disk hnodup h
    obtain ⟨hnumber, hlater⟩ := List.nodup_cons.1 hnodup
    have hmem : number ∈ number :: later := List.mem_cons_self
    obtain ⟨result, middle, hrun, hone⟩ := recoverPartition_cases (h.names number)
      (short_fileName number) h.sound h.reliable (h.stores number hmem) (h.isCommit number hmem)
      (h.isLeftover number hmem) (h.repair number hmem)
    unfold recoverPartitions
    rw [hrun]
    cases hone with
    | failed e =>
      refine ⟨.error e, disk, rfl, Keeps.refl h.sound h.reliable _, ?_, by simp⟩
      intro other hother
      exact Or.inr (h.stores other hother)
    | @opened p _ hnum hpath hhandle hkeeps hholds =>
      obtain ⟨rest, after, hrest, hall⟩ := ih middle hlater (h.tail hnumber hkeeps)
      -- what is done to later partitions is done at other places
      have hapart : ∀ other ∈ later, filePlace here number ≠ filePlace here other := by
        intro other hother hsame
        exact hnumber (filePlace_injective hsame ▸ hother)
      simp only [hrest]
      refine ⟨_, after, rfl, ?_, ?_, ?_⟩
      · refine (hkeeps.mono ?_).trans (hall.keeps.mono ?_)
        · intro place hplace
          exact hplace number hmem
        · intro place hplace other hother
          exact hplace other (List.mem_cons_of_mem _ hother)
      · intro other hother
        rcases List.mem_cons.1 hother with rfl | hother
        · exact Or.inl (hall.keeps.stores hapart hholds.stores)
        · exact hall.stores other hother
      · intro ps hps
        cases rest with
        | error e => simp [Functor.map, Except.map] at hps
        | ok rest =>
          obtain rfl := Except.ok.inj hps
          obtain ⟨hnumbers, hopened⟩ := hall.opened rest rfl
          refine ⟨by rw [List.map_cons, hnum, hnumbers], ?_⟩
          intro q hq
          rcases List.mem_cons.1 hq with rfl | hq
          · subst hnum
            exact ⟨hpath, hhandle, hholds.keeps hkeeps.sound hall.keeps hapart⟩
          · exact hopened q hq

/-- Partitions whose files are there are recovered. -/
theorem recoverPartitions_of_files : ∀ (numbers : List UInt32) (disk : Disk), numbers.Nodup →
    Recoverable config directory here frames leftover disk numbers →
    (∀ number ∈ numbers, Disk.refusal? (directory.child (fileName number)) = none ∧
      ∃ file, disk.entryAt? (filePlace here number) = some (.file file)) →
    ∃ ps after, recoverPartitions config directory numbers disk = (.ok ps, after) := by
  intro numbers
  induction numbers with
  | nil => intro disk _ _ _; exact ⟨[], disk, rfl⟩
  | cons number later ih =>
    intro disk hnodup h hfiles
    obtain ⟨hnumber, hlater⟩ := List.nodup_cons.1 hnodup
    have hmem : number ∈ number :: later := List.mem_cons_self
    obtain ⟨hallowed, file, hentry⟩ := hfiles number hmem
    have hcontent := (h.stores number hmem).content hentry
    obtain ⟨p, middle, hrun, -, -, -, hkeeps, -⟩ := recoverPartition_of_file
      (h.names number hallowed) (short_fileName number) h.sound h.reliable hentry hcontent (h.isCommit number hmem)
      (h.isLeftover number hmem) (h.repair number hmem)
    have hthere : ∀ other ∈ later, Disk.refusal? (directory.child (fileName other)) = none ∧
        ∃ file, middle.entryAt? (filePlace here other) = some (.file file) := by
      intro other hother
      obtain ⟨hokay, found, hfound⟩ := hfiles other (List.mem_cons_of_mem _ hother)
      exact ⟨hokay, found, hkeeps.entryAt?_some _ _ hfound⟩
    obtain ⟨ps, after, hrest⟩ := ih middle hlater (h.tail hnumber hkeeps) hthere
    refine ⟨p :: ps, after, ?_⟩
    unfold recoverPartitions
    rw [hrun]
    simp only [hrest]
    rfl

end Partitions

/-! ## The directory -/

/-- The directory of a topic is there already, is made, or cannot be had. -/
theorem ensureDirectory_cases (config : Config) {root : Path} {name : String}
    (hname : isValidName name = true)
    (hroot : disk.follow (.directory top) root.segments = .ok (.directory here))
    (hentry : disk.entryAt? ⟨here, name⟩ = none ∨
      ∃ there, disk.entryAt? ⟨here, name⟩ = some (.directory there)) :
    (∃ e, ensureDirectory config (root.child name) name disk = (.error e, disk)) ∨
      disk.Names (root.child name) ⟨here, name⟩ ∧ name.utf8ByteSize ≤ nameLimit ∧
        (ensureDirectory config (root.child name) name disk = (.ok (), disk) ∧
            (∃ there, disk.entryAt? ⟨here, name⟩ = some (.directory there)) ∨
          ensureDirectory config (root.child name) name disk
              = (.ok (), disk.createDirectory ⟨here, name⟩) ∧
            disk.entryAt? ⟨here, name⟩ = none ∧ config.openFlags.contains .create = true) := by
  have hisName := isName_of_isValidName hname
  unfold ensureDirectory
  cases hrefused : Disk.refusal? (root.child name) with
  | some failure =>
    have hdirectory : disk.isDirectory (root.child name) = false :=
      Disk.isDirectory_of_resolve fun number => by rw [Disk.resolve_of_refused hrefused]; simp
    left
    rw [hdirectory, if_neg Bool.false_ne_true, Disk.makeDirectories_of_refused hrefused]
    cases config.openFlags.contains .create <;> exact ⟨_, rfl⟩
  | none =>
    have hnames := Disk.names_child hroot hisName hrefused
    rcases Nat.lt_or_ge nameLimit name.utf8ByteSize with hlong | hshort
    · have hdirectory : disk.isDirectory (root.child name) = false :=
        Disk.isDirectory_of_resolve fun number => by
          rw [Disk.resolve_of_names hnames, Disk.lookup_of_long hlong]
          simp
      left
      rw [hdirectory, if_neg Bool.false_ne_true, Disk.makeDirectories_of_long hnames hlong]
      cases config.openFlags.contains .create <;> exact ⟨_, rfl⟩
    · rcases hentry with hnone | ⟨there, hthere⟩
      · rw [Disk.isDirectory_of_none hnames hnone hshort, if_neg Bool.false_ne_true,
          Disk.makeDirectories_of_none hnames hshort hnone]
        cases hcreate : config.openFlags.contains .create with
        | false => exact Or.inl ⟨_, rfl⟩
        | true => exact Or.inr ⟨hnames, hshort, Or.inr ⟨rfl, hnone, rfl⟩⟩
      · rw [Disk.isDirectory_of_names hnames hthere hshort, if_pos rfl]
        exact Or.inr ⟨hnames, hshort, Or.inl ⟨rfl, there, hthere⟩⟩

/-- What stands below a root for a topic: nothing yet, or a directory with a file for every
partition. -/
inductive Stored (disk : Disk) (home : Place) (numbers : List UInt32) (data : UInt32 → Bytes) :
    Prop where
  | missing (entry : disk.entryAt? home = none) (empty : ∀ number ∈ numbers, data number = []) :
      Stored disk home numbers data
  | there {directory : Nat} (entry : disk.entryAt? home = some (.directory directory))
      (files : ∀ number ∈ numbers, disk.Stores (filePlace directory number) (data number)) :
      Stored disk home numbers data

/-- A topic that has a directory has the files that it had. -/
theorem ensureDirectory_of_stored (config : Config) {root : Path} {name : String}
    {numbers : List UInt32} {data : UInt32 → Bytes} (hname : isValidName name = true)
    (hroot : disk.follow (.directory top) root.segments = .ok (.directory here))
    (hsound : disk.Sound) (hreliable : disk.Reliable)
    (hstored : Stored disk ⟨here, name⟩ numbers data) :
    (∃ e, ensureDirectory config (root.child name) name disk = (.error e, disk)) ∨
      ∃ made there, ensureDirectory config (root.child name) name disk = (.ok (), made) ∧
        Keeps disk made (· ≠ ⟨here, name⟩) ∧ made.Names (root.child name) ⟨here, name⟩ ∧
        name.utf8ByteSize ≤ nameLimit ∧
        made.entryAt? ⟨here, name⟩ = some (.directory there) ∧
        ∀ number ∈ numbers, made.Stores (filePlace there number) (data number) := by
  have hentry : disk.entryAt? ⟨here, name⟩ = none ∨
      ∃ there, disk.entryAt? ⟨here, name⟩ = some (.directory there) := by
    cases hstored with
    | missing entry => exact Or.inl entry
    | there entry => exact Or.inr ⟨_, entry⟩
  rcases ensureDirectory_cases config hname hroot hentry with
    hfail | ⟨hnames, hshort, ⟨hrun, there, hthere⟩ | ⟨hrun, hnone, -⟩⟩
  · exact Or.inl hfail
  · refine Or.inr ⟨disk, there, hrun, Keeps.refl hsound hreliable _, hnames, hshort, hthere, ?_⟩
    cases hstored with
    | missing entry => simp [entry] at hthere
    | there entry files =>
      rw [entry] at hthere
      obtain rfl := Disk.Entry.directory.inj (Option.some.inj hthere)
      exact files
  · have hplace := Disk.directory_lt_of_names hnames hsound
    have hkeeps := Disk.keeps_createDirectory hsound hreliable hplace hnone
    have hmade := Disk.entryAt?_createDirectory hplace
    refine Or.inr ⟨_, disk.directories.size, hrun, hkeeps, hkeeps.names hsound hnames, hshort,
      ?_, ?_⟩
    · rw [hmade, if_pos rfl]
    · intro number hnumber
      cases hstored with
      | there entry => simp [entry] at hnone
      | missing _ empty =>
        refine Or.inr ⟨?_, empty number hnumber⟩
        -- the new directory is empty, and its number is nobody else's
        have hne : filePlace disk.directories.size number ≠ ⟨here, name⟩ := by
          intro hsame
          have := congrArg Place.directory hsame
          simp only [filePlace] at this
          simp only at hplace
          omega
        rw [hmade, if_neg hne]
        exact Disk.entryAt?_of_size_le (Nat.le_refl _)

/-! ## The whole topic -/

theorem nodup_partitionNumbers (config : Config) : (partitionNumbers config).Nodup := by
  refine List.pairwise_map.2 (List.Pairwise.imp_of_mem ?_ List.nodup_range)
  intro m n hm hn hne hsame
  have hlt := config.partitions.toNat_lt
  have hvalue := congrArg UInt32.toNat hsame
  rw [List.mem_range] at hm hn
  rw [UInt32.toNat_ofNat', UInt32.toNat_ofNat'] at hvalue
  omega

theorem mem_partitionNumbers : number ∈ partitionNumbers config ↔ number < config.partitions := by
  unfold partitionNumbers
  rw [List.mem_map, UInt32.lt_iff_toNat_lt]
  constructor
  · rintro ⟨n, hn, rfl⟩
    have hlt := config.partitions.toNat_lt
    rw [List.mem_range] at hn
    rw [UInt32.toNat_ofNat']
    omega
  · intro h
    exact ⟨number.toNat, List.mem_range.2 h, UInt32.ofNat_toNat⟩

/-- The directory of a topic: the path that leads to it, and its number on the disk. -/
structure Folder where
  path : Path
  directory : Nat

/-- All partitions of a topic are there in order, and hold frames in the files of its directory. -/
structure Holds (topic : Topic) (disk : Disk) (folder : Folder) (numbers : List UInt32)
    (frames : UInt32 → List Frame) : Prop where
  numbers_eq : topic.partitions.map Partition.number = numbers
  path_eq : ∀ p ∈ topic.partitions, p.path = folder.path.child (fileName p.number)
  partition : ∀ p ∈ topic.partitions,
    p.Holds disk (filePlace folder.directory p.number) (frames p.number)

/-- A topic is verified when all its partitions are. -/
theorem verify_of_partitions {topic : Topic} (h : ∀ p ∈ topic.partitions,
    p.verify disk topic.maxEntryBytes topic.maxMapBytes = .ok p.tail) :
    topic.verify disk = .ok topic.tails := by
  have hall : ∀ ps : List Partition, (∀ p ∈ ps, p ∈ topic.partitions) →
      (ps.mapM fun p => p.verify disk topic.maxEntryBytes topic.maxMapBytes)
        = .ok (ps.map Partition.tail) := by
    intro ps
    induction ps with
    | nil => intro _; rfl
    | cons p later ih =>
      intro hps
      rw [List.mapM_cons, h p (hps p List.mem_cons_self),
        ih fun q hq => hps q (List.mem_cons_of_mem _ hq)]
      rfl
  unfold verify
  rw [hall topic.partitions fun _ hp => hp]
  rfl

/-- What recovering a topic comes to. -/
structure RecoveredTopic (config : Config) (root : Path) (name : String) (home : Place)
    (frames : UInt32 → List Frame) (leftover : UInt32 → Bytes) (disk : Disk)
    (result : Except LogError Topic) (after : Disk) : Prop where
  /-- Nothing is touched but the directory of the topic and what is in it. -/
  keeps : Keeps disk after fun place => place ≠ home ∧
    ∀ directory, after.entryAt? home = some (.directory directory) → place.directory ≠ directory
  stored : ∃ data, Stored after home (partitionNumbers config) data ∧
    ∀ number ∈ partitionNumbers config, data number = encodeAll (frames number) ∨
      data number = encodeAll (frames number) ++ leftover number
  opened : ∀ topic, result = .ok topic →
    topic.name = name ∧ topic.maxEntryBytes = config.maxEntryBytes ∧
      topic.maxMapBytes = config.effectiveMaxMapBytes ∧ topic.queue = .ofFanout config.fanout ∧
      ∃ directory, after.entryAt? home = some (.directory directory) ∧
        topic.Holds after ⟨root.child name, directory⟩ (partitionNumbers config) frames ∧
        ∀ p ∈ topic.partitions, p.handle.isSome = config.openFlags.contains .append

/-- Each file has been repaired or left as it was. -/
theorem RecoveredAll.exists_stored {directory : Path} {frames : UInt32 → List Frame}
    {leftover : UInt32 → Bytes} {numbers : List UInt32} {result : Except LogError (List Partition)}
    {after : Disk}
    (h : RecoveredAll config directory here frames leftover disk numbers result after)
    {home : Place} (hhome : after.entryAt? home = some (.directory here)) :
    ∃ data, Stored after home numbers data ∧ ∀ number ∈ numbers,
      data number = encodeAll (frames number) ∨
        data number = encodeAll (frames number) ++ leftover number := by
  classical
  refine ⟨fun number =>
    if after.Stores (filePlace here number) (encodeAll (frames number)) then
      encodeAll (frames number)
    else encodeAll (frames number) ++ leftover number, .there hhome ?_, ?_⟩
  · intro number hnumber
    by_cases hwhole : after.Stores (filePlace here number) (encodeAll (frames number))
    · simpa only [if_pos hwhole] using hwhole
    · simpa only [if_neg hwhole] using (h.stores number hnumber).resolve_left hwhole
  · intro number _
    by_cases hwhole : after.Stores (filePlace here number) (encodeAll (frames number))
    · exact Or.inl (if_pos hwhole)
    · exact Or.inr (if_neg hwhole)

section Recover

variable {root : Path} {name : String} {frames : UInt32 → List Frame} {leftover : UInt32 → Bytes}
  (hroot : disk.follow (.directory top) root.segments = .ok (.directory here))
  (hsound : disk.Sound) (hreliable : disk.Reliable)
  (hstored : Stored disk ⟨here, name⟩ (partitionNumbers config)
    fun number => encodeAll (frames number) ++ leftover number)
  (hframes : ∀ number ∈ partitionNumbers config, ∀ frame ∈ frames number,
    IsCommit config.maxEntryBytes frame)
  (hleft : ∀ number ∈ partitionNumbers config, Leftover config.maxEntryBytes (leftover number))
  (hrepair : ∀ number ∈ partitionNumbers config, leftover number = [] ∨
    config.repairTornTail = true ∧ config.openFlags.contains .append = true)

include hroot hsound hreliable hstored hframes hleft hrepair

/-- **Recovering a topic keeps the whole frames of every file**, or fails and keeps everything. -/
theorem recover_cases :
    ∃ result after, recover config root name disk = (result, after) ∧
      RecoveredTopic config root name ⟨here, name⟩ frames leftover disk result after := by
  have hfailed : ∀ e,
      RecoveredTopic config root name ⟨here, name⟩ frames leftover disk (.error e) disk :=
    fun e => ⟨Keeps.refl hsound hreliable _, ⟨_, hstored, fun _ _ => Or.inr rfl⟩, by simp⟩
  unfold recover
  cases hname : isValidName name with
  | false => exact ⟨_, disk, rfl, hfailed _⟩
  | true =>
    rcases ensureDirectory_of_stored config hname hroot hsound hreliable hstored with
      ⟨e, hensure⟩ | ⟨made, there, hensure, hmade, hnames, hshort, hthere, hfiles⟩
    · simp only [hensure]
      exact ⟨_, disk, rfl, hfailed _⟩
    · have hready : Recoverable config (root.child name) there frames leftover made
          (partitionNumbers config) :=
        ⟨hmade.sound, hmade.reliable, fun number hallowed =>
          Disk.names_child_of_names hnames hshort hthere (isName_fileName number) hallowed,
          hfiles, hframes, hleft, hrepair⟩
      obtain ⟨result, after, hrun, hall⟩ :=
        recoverPartitions_cases _ made (nodup_partitionNumbers config) hready
      have hhome := hall.keeps.entryAt?_some _ _ hthere
      simp only [hensure, hrun]
      refine ⟨_, after, rfl, ?_, ?_, ?_⟩
      · refine (hmade.mono ?_).trans (hall.keeps.mono ?_)
        · intro place hplace
          exact hplace.1
        · intro place hplace number _ hsame
          exact hplace.2 there hhome (congrArg Place.directory hsame)
      · exact hall.exists_stored hhome
      · intro topic htopic
        cases result with
        | error e => simp [Except.map] at htopic
        | ok ps =>
          obtain ⟨hnumbers, hopened⟩ := hall.opened ps rfl
          obtain rfl := Except.ok.inj htopic
          exact ⟨rfl, rfl, rfl, rfl, there, hhome, ⟨hnumbers, fun p hp => (hopened p hp).path_eq,
            fun p hp => (hopened p hp).holds⟩, fun p hp => (hopened p hp).handle⟩

/-- A topic whose directory and files are all there is recovered. -/
theorem recover_of_files (hname : isValidName name = true)
    (hdirectory : disk.isDirectory (root.child name) = true)
    (hfiles : ∀ number ∈ partitionNumbers config, ∃ file,
      disk.resolve ((root.child name).child (fileName number)) = .ok (.file file)) :
    ∃ topic after, recover config root name disk = (.ok topic, after) := by
  obtain ⟨there, hresolve⟩ := Disk.exists_of_isDirectory hdirectory
  obtain ⟨found, hfound, hnames, hshort, hthere⟩ :=
    Disk.exists_names_of_resolve (isName_of_isValidName hname) hresolve
  rw [hroot] at hfound
  obtain rfl := Disk.Entry.directory.inj (Except.ok.inj hfound)
  have hfollow := Disk.follow_of_resolve hresolve
  have hstores : ∀ number ∈ partitionNumbers config,
      disk.Stores (filePlace there number) (encodeAll (frames number) ++ leftover number) := by
    cases hstored with
    | missing entry => simp [entry] at hthere
    | there entry files =>
      rw [entry] at hthere
      obtain rfl := Disk.Entry.directory.inj (Option.some.inj hthere)
      exact files
  have hready : Recoverable config (root.child name) there frames leftover disk
      (partitionNumbers config) :=
    ⟨hsound, hreliable, fun number hallowed =>
      Disk.names_child_of_names hnames hshort hthere (isName_fileName number) hallowed,
      hstores, hframes, hleft, hrepair⟩
  obtain ⟨ps, after, hrun⟩ := recoverPartitions_of_files _ disk (nodup_partitionNumbers config)
    hready (by
      intro number hnumber
      obtain ⟨file, hfile⟩ := hfiles number hnumber
      obtain ⟨inside, hinside, hpath, -, hentry⟩ :=
        Disk.exists_names_of_resolve (isName_fileName number) hfile
      rw [hfollow] at hinside
      obtain rfl := Disk.Entry.directory.inj (Except.ok.inj hinside)
      exact ⟨hpath.allowed, file, hentry⟩)
  have hensure : ensureDirectory config (root.child name) name disk = (.ok (), disk) := by
    unfold ensureDirectory
    rw [hdirectory, if_pos rfl]
  unfold recover
  rw [hname]
  simp only [Bool.not_true, Bool.false_eq_true, if_false, hensure, hrun]
  exact ⟨_, after, rfl⟩

end Recover

end CommitLog.Topic
