import CommitLog.Proofs.Disk.Spares
import CommitLog.Proofs.Partition.PlainWalk
import CommitLog.Proofs.Topic.Opening

/-!
# Opening a topic once and again

Whatever its files hold, and whatever goes wrong on the disk: if a topic opens, the scan of each
file has succeeded, and all that was done to the file is that a torn end was cut off
(`OpenedFrom`). After that the file is in order for these settings (`Standing`): the index is what
a scan of it finds, and recovering the partition again gives the same partition and touches
nothing. Files of other partitions are in other places, so this outlasts the opening of the rest.
-/

namespace CommitLog.Topic

open CommitLog.Disk (Place Entry Handle Alters Spares AddsDirectories nameLimit top)
open CommitLog.Partition (Scan scanFile)

variable {config : Config} {disk middle after later : Disk} {directory : Path} {place : Place}
  {number : UInt32} {here file : Nat} {path : Path} {p : Partition} {found : Scan}
  {kept : Place → Prop}

/-! ## One partition in order -/

/-- The partition is what opening it now gives: its index is what a scan of its file finds, and what
is torn about the file is to be passed over. -/
structure Standing (config : Config) (directory : Path) (here : Nat) (disk : Disk) (p : Partition)
    (found : Scan) : Prop where
  path_eq : p.path = directory.child (fileName p.number)
  names : disk.Names p.path (filePlace here p.number)
  scan : scanFile disk p.path config.maxEntryBytes config.effectiveMaxMapBytes = .ok found
  torn : found.torn.isSome → config.repairTornTail = true ∧
    config.openFlags.contains .append = false
  frames : p.frames = found.frames
  tailOffset : p.tailOffset = found.entries
  tailBytes : p.tailBytes = found.validBytes
  handle : p.handle = if config.openFlags.contains .append then
    (disk.entryAt? (filePlace here p.number)).bind Entry.handle? else none
  opened : config.openFlags.contains .append = true → p.handle.isSome

/-- What is done elsewhere on the disk is no concern of a partition. -/
theorem Standing.spares (h : Standing config directory here disk p found) (hsound : disk.Sound)
    (hspares : Spares disk after kept) (hplace : kept (filePlace here p.number)) :
    Standing config directory here after p found where
  path_eq := h.path_eq
  names := hspares.grows.names hsound h.names
  scan := by
    have hread := hspares.read_eq hsound h.names (short_fileName p.number) hplace
    rw [← h.scan, scanFile, scanFile, hread]
  torn := h.torn
  frames := h.frames
  tailOffset := h.tailOffset
  tailBytes := h.tailBytes
  handle := by rw [hspares.entryAt?_kept _ hplace, h.handle]
  opened := h.opened

/-- **Recovering a partition that is in order gives it again**, and nothing is done to the disk. -/
theorem Standing.recoverPartition_eq (h : Standing config directory here disk p found) :
    recoverPartition config directory p.number disk = (.ok p, disk) := by
  have hrepair : repair config disk p.path found = (.ok (), disk) := by
    unfold repair
    cases htorn : found.torn with
    | none => rfl
    | some torn =>
      obtain ⟨hrepairs, happend⟩ := h.torn (by rw [htorn]; rfl)
      simp only [hrepairs, happend, Bool.not_true, Bool.false_eq_true, if_false]
  have hopen : openFile config disk p.path = (.ok p.handle, disk) := by
    have hhandle := h.handle
    unfold openFile
    split at hhandle
    next happend =>
      obtain ⟨opened, hopened⟩ := Option.isSome_iff_exists.1 (h.opened happend)
      rw [hopened] at hhandle ⊢
      obtain ⟨entry, hentry, hopens⟩ := Option.bind_eq_some_iff.1 hhandle.symm
      rw [if_pos happend, Disk.openAppend_of_entry h.names (short_fileName p.number) hentry, hopens]
    next happend => rw [if_neg happend, hhandle]
  unfold recoverPartition
  rw [← h.path_eq]
  simp only [h.scan, hrepair, hopen]
  rw [Partition.recordAll_of_scanFile h.scan, ← h.frames, ← h.tailOffset, ← h.tailBytes]

/-! ## Opening one partition -/

/-- What a scan finds in a file that has been opened: where files may be changed, what was torn has
been cut off. -/
def settled (config : Config) (found : Scan) : Scan :=
  if config.openFlags.contains .append then { found with torn := none } else found

/-- A partition has been opened from a file whose scan found this. The file was changed at most in
that a torn end was cut off, and is in order now. -/
structure OpenedFrom (config : Config) (directory : Path) (here : Nat) (disk after : Disk)
    (p : Partition) (found : Scan) : Prop where
  scan : scanFile disk p.path config.maxEntryBytes config.effectiveMaxMapBytes = .ok found
  standing : Standing config directory here after p (settled config found)
  file : ∀ file, disk.entryAt? (filePlace here p.number) = some (.file file) →
    after.entryAt? (filePlace here p.number) = some (.file file) ∧
      (after.content file = disk.content file ∨
        found.torn.isSome ∧ config.openFlags.contains .append = true ∧
          config.repairTornTail = true ∧
          after.content file = (disk.content file).take found.validBytes)

/-- A repair that succeeds has nothing to do or passes over what is torn, or it cuts the file. -/
theorem repair_ok (h : repair config disk path found = (.ok (), after)) :
    after = disk ∧ (found.torn.isSome → config.repairTornTail = true ∧
        config.openFlags.contains .append = false) ∨
      found.torn.isSome ∧ config.openFlags.contains .append = true ∧
        config.repairTornTail = true ∧ cut disk path found.validBytes = (.ok (), after) := by
  unfold repair at h
  split at h
  next htorn => exact .inl ⟨(congrArg Prod.snd h).symm, by simp [htorn]⟩
  next torn htorn =>
    split at h
    next => simp at h
    next hrepairs =>
      rw [Bool.not_eq_true', Bool.not_eq_false] at hrepairs
      split at h
      next happend =>
        refine .inr ⟨by rw [htorn]; rfl, happend, hrepairs, ?_⟩
        rcases hcut : cut disk path found.validBytes with ⟨result, made⟩
        rw [hcut] at h
        obtain ⟨hresult, rfl⟩ := Prod.mk.inj h
        cases result with
        | ok => rfl
        | error failure => simp [Except.mapError] at hresult
      next happend =>
        exact .inl ⟨(congrArg Prod.snd h).symm, fun _ => ⟨hrepairs, by simpa using happend⟩⟩

/-- A cut that succeeds has cut the file, whatever may go wrong with others. -/
theorem cut_ok (hnames : disk.Names path place) (hshort : place.name.utf8ByteSize ≤ nameLimit)
    (hsound : disk.Sound) (hentry : disk.entryAt? place = some (.file file)) {length : Nat}
    (hlength : length ≤ (disk.content file).length)
    (h : cut disk path length = (.ok (), after)) :
    Alters disk after file ((disk.content file).take length) := by
  unfold cut at h
  rw [Disk.openAppend_of_file hnames hshort hentry] at h
  rcases hset : disk.setLength (.file file) length with ⟨result, shortened⟩
  simp only [hset] at h
  rcases Disk.alters_setLength (hsound.file_lt place file hentry) hlength hset with
    ⟨rfl, halters⟩ | ⟨hresult, -⟩
  · have hsync := Disk.alters_sync h
    rw [halters.content] at hsync
    exact halters.trans hsync
  · cases result with
    | ok => exact absurd rfl hresult
    | error failure => simp at h

/-- Only a file can be torn. -/
theorem exists_file_of_torn {maxField maxWindow : Nat} (hnames : disk.Names path place)
    (hshort : place.name.utf8ByteSize ≤ nameLimit)
    (hscan : scanFile disk path maxField maxWindow = .ok found) (htorn : found.torn.isSome) :
    ∃ file, disk.entryAt? place = some (.file file) ∧
      Partition.scan maxField maxWindow (disk.content file) = .ok found := by
  have hread : disk.read path = match disk.entryAt? place with
      | none => .error .notFound
      | some (.directory _) => .error .noSuchDevice
      | some (.file file) => .ok (disk.content file)
      | some .device => .ok [] := by
    unfold Disk.read
    rw [Disk.resolve_of_names hnames, Disk.lookup_of_short hshort]
    rcases disk.entryAt? place with _ | _ | _ | _ <;> rfl
  unfold scanFile at hscan
  rw [hread] at hscan
  rcases hentry : disk.entryAt? place with _ | reached | file | _
  · simp only [hentry] at hscan
    obtain rfl := Except.ok.inj hscan
    simp [Scan.empty] at htorn
  · simp [hentry] at hscan
  · simp only [hentry] at hscan
    refine ⟨file, rfl, ?_⟩
    cases hdata : Partition.scan maxField maxWindow (disk.content file) with
    | error e => simp [hdata, Except.mapError] at hscan
    | ok data => rw [hdata] at hscan; exact congrArg Except.ok (Except.ok.inj hscan)
  · simp only [hentry, Partition.scan_nil] at hscan
    obtain rfl := Except.ok.inj hscan
    simp [Scan.empty] at htorn

section Opened

variable (hnames : disk.Names path place) (hshort : place.name.utf8ByteSize ≤ nameLimit)
  (hsound : disk.Sound)

include hnames hshort hsound

/-- What a scan finds in a file behind a repair, and what has become of the file. -/
theorem repair_settles
    (hscan : scanFile disk path config.maxEntryBytes config.effectiveMaxMapBytes = .ok found)
    (h : repair config disk path found = (.ok (), after)) :
    Spares disk after (· ≠ place) ∧ after.entryAt? place = disk.entryAt? place ∧
      scanFile after path config.maxEntryBytes config.effectiveMaxMapBytes
        = .ok (settled config found) ∧
      ((settled config found).torn.isSome → config.repairTornTail = true ∧
        config.openFlags.contains .append = false) ∧
      ∀ file, disk.entryAt? place = some (.file file) → after.content file = disk.content file ∨
        found.torn.isSome ∧ config.openFlags.contains .append = true ∧
          config.repairTornTail = true ∧
          after.content file = (disk.content file).take found.validBytes := by
  rcases repair_ok h with ⟨rfl, htorn⟩ | ⟨htorn, happend, hrepairs, hcut⟩
  · have hsettled : settled config found = found := by
      unfold settled
      split
      next happend =>
        cases hfound : found.torn with
        | none => rw [← hfound]
        | some torn => simp [(htorn (by rw [hfound]; rfl)).2] at happend
      next => rfl
    rw [hsettled]
    exact ⟨.refl hsound _, rfl, hscan, htorn, fun _ _ => .inl rfl⟩
  · have hsettled : settled config found = { found with torn := none } := if_pos happend
    -- only a file can be torn
    obtain ⟨file, hentry, hdata⟩ := exists_file_of_torn hnames hshort hscan htorn
    have hle := Partition.validBytes_le_of_scan hdata
    have halters := cut_ok hnames hshort hsound hentry hle hcut
    have hspares := halters.spares hsound
      (Nat.le_trans (List.length_take_le' ..) (hsound.length_le file)) hentry
    refine ⟨hspares, Disk.entryAt?_congr halters.directories place, ?_, ?_, ?_⟩
    · rw [hsettled]
      refine Partition.scanFile_of_scan (Disk.read_of_file (hspares.grows.names hsound hnames) hshort
        ((Disk.entryAt?_congr halters.directories place).trans hentry)) ?_
      rw [halters.content]
      exact Partition.scan_take_validBytes hdata
    · simp [hsettled]
    · intro other hother
      rw [hentry] at hother
      obtain rfl := Entry.file.inj (Option.some.inj hother)
      exact .inr ⟨htorn, happend, hrepairs, halters.content⟩

/-- Opening a file for appending makes it if it is missing, and does nothing else. -/
theorem openFile_ok {handle : Option Handle} (h : openFile config disk path = (.ok handle, after)) :
    Spares disk after (· ≠ place) ∧
      (∀ entry, disk.entryAt? place = some entry → after = disk) ∧
      scanFile after path config.maxEntryBytes config.effectiveMaxMapBytes
        = scanFile disk path config.maxEntryBytes config.effectiveMaxMapBytes ∧
      (handle = if config.openFlags.contains .append then (after.entryAt? place).bind Entry.handle?
        else none) ∧
      (config.openFlags.contains .append = true → handle.isSome) := by
  unfold openFile at h
  split at h
  next happend =>
    simp only [happend, if_true, true_implies]
    cases hentry : disk.entryAt? place with
    | some entry =>
      rw [Disk.openAppend_of_entry hnames hshort hentry] at h
      cases hopens : entry.handle? with
      | none => simp [hopens] at h
      | some opened =>
        simp only [hopens, Prod.mk.injEq, Except.ok.injEq] at h
        obtain ⟨rfl, rfl⟩ := h
        refine ⟨.refl hsound _, fun _ _ => rfl, rfl, ?_, rfl⟩
        rw [hentry, Option.bind_some, hopens]
    | none =>
      rw [Disk.openAppend_of_none hnames hshort hentry] at h
      split at h
      next handle made hmade =>
        split at hmade
        next =>
          have hplace := Disk.directory_lt_of_names hnames hsound
          have hspares := Disk.spares_createFile hsound hplace hentry
          simp only [Except.ok.injEq, Prod.mk.injEq] at h hmade
          obtain ⟨rfl, rfl⟩ := h
          obtain ⟨rfl, rfl⟩ := hmade
          have hthere : (disk.createFile place).entryAt? place = some (.file disk.contents.size) := by
            rw [Disk.entryAt?_createFile hplace, if_pos rfl]
          refine ⟨hspares, by simp, ?_, ?_, rfl⟩
          · have hempty : (disk.createFile place).content disk.contents.size = [] := by
              rw [Disk.content_createFile, Disk.content_of_size_le (Nat.le_refl _)]
            have hread := Disk.read_of_file (hspares.grows.names hsound hnames) hshort hthere
            rw [hempty] at hread
            rw [Partition.scanFile_of_scan hread (Partition.scan_nil _ _), scanFile,
              Disk.read_of_none hnames hshort hentry]
          · rw [hthere]
            rfl
        next => simp at hmade
      next => simp at h
  next happend =>
    simp only [Prod.mk.injEq, Except.ok.injEq] at h
    obtain ⟨rfl, rfl⟩ := h
    refine ⟨.refl hsound _, fun _ _ => rfl, rfl, ?_, fun hopen => absurd hopen happend⟩
    rw [if_neg happend]

end Opened

theorem settled_fields (config : Config) (found : Scan) :
    (settled config found).frames = found.frames ∧
      (settled config found).entries = found.entries ∧
      (settled config found).validBytes = found.validBytes := by
  unfold settled
  split <;> exact ⟨rfl, rfl, rfl⟩

/-- **A partition that opens is in order**, and its file was changed by a cut at most. -/
theorem recoverPartition_ok
    (hdirectory : disk.follow (.directory top) directory.segments = .ok (.directory here))
    (hsound : disk.Sound) (h : recoverPartition config directory number disk = (.ok p, after)) :
    p.number = number ∧ Spares disk after (· ≠ filePlace here number) ∧
      ∃ found, OpenedFrom config directory here disk after p found := by
  have hallowed : Disk.refusal? (directory.child (fileName number)) = none := by
    cases hrefused : Disk.refusal? (directory.child (fileName number)) with
    | none => rfl
    | some failure =>
      obtain ⟨e, hrun⟩ : ∃ e, recoverPartition config directory number disk = (.error e, disk) :=
        recoverPartition_of_refused hrefused
      simp [hrun] at h
  have hnames : disk.Names (directory.child (fileName number)) (filePlace here number) :=
    Disk.names_child hdirectory (isName_fileName number) hallowed
  have hshort : (filePlace here number).name.utf8ByteSize ≤ nameLimit := short_fileName number
  unfold recoverPartition at h
  simp only at h
  split at h
  next => simp at h
  next found hscan =>
    split at h
    next => simp at h
    next middle hrepair =>
      split at h
      next => simp at h
      next handle last hopen =>
        obtain ⟨hspares, hentry, hsettled, htorn, hfile⟩ :=
          repair_settles hnames hshort hsound hscan hrepair
        obtain ⟨hopened, hsame, hrescan, hhandle, hsome⟩ :=
          openFile_ok (hspares.grows.names hsound hnames) hshort hspares.sound hopen
        rw [Partition.recordAll_of_scanFile hscan] at h
        simp only [Prod.mk.injEq, Except.ok.injEq] at h
        obtain ⟨rfl, rfl⟩ := h
        obtain ⟨hframes, hentries, hvalid⟩ := settled_fields config found
        refine ⟨rfl, hspares.trans hopened, found, hscan, ?_, ?_⟩
        · exact ⟨rfl, (hspares.trans hopened).grows.names hsound hnames, hrescan.trans hsettled,
            htorn, hframes.symm, hentries.symm, hvalid.symm, hhandle, hsome⟩
        · intro file hthere
          rw [hsame _ (hentry.trans hthere)]
          exact ⟨hentry.trans hthere, hfile file hthere⟩

/-! ## All partitions -/

/-- What is done elsewhere after the opening is no concern of a partition. -/
theorem OpenedFrom.spares (h : OpenedFrom config directory here disk middle p found)
    (hsound : middle.Sound) (hspares : Spares middle after kept)
    (hplace : kept (filePlace here p.number)) :
    OpenedFrom config directory here disk after p found where
  scan := h.scan
  standing := h.standing.spares hsound hspares hplace
  file file hentry := by
    obtain ⟨hthere, hcontent⟩ := h.file file hentry
    rw [hspares.entryAt?_kept _ hplace, hspares.content_kept _ file hplace hthere]
    exact ⟨hthere, hcontent⟩

/-- Nor is what was done elsewhere before it. -/
theorem OpenedFrom.of_spares (h : OpenedFrom config directory here middle after p found)
    (hsound : disk.Sound) (hspares : Spares disk middle kept)
    (hnames : disk.Names p.path (filePlace here p.number))
    (hplace : kept (filePlace here p.number)) :
    OpenedFrom config directory here disk after p found where
  scan := by
    have hread := hspares.read_eq hsound hnames (short_fileName p.number) hplace
    rw [← h.scan, scanFile, scanFile, hread]
  standing := h.standing
  file file hentry := by
    rw [← hspares.content_kept _ file hplace hentry]
    exact h.file file (hspares.grows.entryAt?_some _ _ hentry)

/-- Partitions that open are in order, and no other place is touched. -/
theorem recoverPartitions_ok : ∀ (numbers : List UInt32) (disk : Disk) (ps : List Partition),
    numbers.Nodup → disk.Sound →
    disk.follow (.directory top) directory.segments = .ok (.directory here) →
    recoverPartitions config directory numbers disk = (.ok ps, after) →
    ps.map Partition.number = numbers ∧
      Spares disk after (fun place => ∀ number ∈ numbers, place ≠ filePlace here number) ∧
      ∀ p ∈ ps, ∃ found, OpenedFrom config directory here disk after p found := by
  intro numbers
  induction numbers with
  | nil =>
    intro disk ps _ hsound _ h
    simp only [recoverPartitions, Prod.mk.injEq, Except.ok.injEq] at h
    obtain ⟨rfl, rfl⟩ := h
    exact ⟨rfl, .refl hsound _, nofun⟩
  | cons number later ih =>
    intro disk ps hnodup hsound hdirectory h
    obtain ⟨hnumber, hlater⟩ := List.nodup_cons.1 hnodup
    rw [recoverPartitions] at h
    split at h
    next => simp at h
    next p middle hrun =>
      obtain ⟨rfl, hspares, found, hopened⟩ := recoverPartition_ok hdirectory hsound hrun
      rcases hrest : recoverPartitions config directory later middle with ⟨result, last⟩
      rw [hrest] at h
      simp only [Prod.mk.injEq] at h
      obtain ⟨hps, rfl⟩ := h
      cases result with
      | error e => simp at hps
      | ok rest =>
        obtain rfl := Except.ok.inj hps
        obtain ⟨hnumbers, hspares', hothers⟩ := ih middle rest hlater hspares.sound
          (hspares.grows.follow hsound hsound.top_lt hdirectory) hrest
        refine ⟨by rw [List.map_cons, hnumbers], ?_, ?_⟩
        · exact (hspares.mono fun place hplace => hplace p.number List.mem_cons_self).trans
            (hspares'.mono fun place hplace other hother =>
              hplace other (List.mem_cons_of_mem _ hother))
        · refine List.forall_mem_cons.2 ⟨⟨found, hopened.spares hspares.sound hspares' ?_⟩, ?_⟩
          · intro other hother hsame
            exact hnumber (filePlace_injective hsame ▸ hother)
          · intro q hq
            obtain ⟨found, hq'⟩ := hothers q hq
            have hmem : q.number ∈ later := hnumbers ▸ List.mem_map_of_mem hq
            refine ⟨found, hq'.of_spares hsound hspares ?_ ?_⟩
            · have hallowed := hq'.standing.names.allowed
              rw [hq'.standing.path_eq] at hallowed ⊢
              exact Disk.names_child hdirectory (isName_fileName q.number) hallowed
            · intro hsame
              exact hnumber (filePlace_injective hsame ▸ hmem)

/-- Recovering partitions that are in order gives them again. -/
theorem recoverPartitions_of_standing (here : Nat) : ∀ ps : List Partition,
    (∀ p ∈ ps, ∃ found, Standing config directory here disk p found) →
    recoverPartitions config directory (ps.map Partition.number) disk = (.ok ps, disk) := by
  intro ps
  induction ps with
  | nil => intro _; rfl
  | cons p rest ih =>
    intro h
    obtain ⟨⟨found, hp⟩, hrest⟩ := List.forall_mem_cons.1 h
    rw [List.map_cons, recoverPartitions, hp.recoverPartition_eq]
    simp only [ih hrest]
    rfl

/-! ## The directory -/

/-- Whatever comes of it, nothing but directories is made. -/
theorem addsDirectories_ensureDirectory (config : Config) (directory : Path) (name : String)
    (hsound : disk.Sound) :
    AddsDirectories disk (ensureDirectory config directory name disk).2 := by
  unfold ensureDirectory
  split
  · exact .refl hsound
  · split
    · exact .refl hsound
    · exact (Disk.addsDirectories_makeDirectories hsound directory).1

theorem ensureDirectory_ok {root : Path} {name : String} (hname : isValidName name = true)
    (hsound : disk.Sound)
    (h : ensureDirectory config (root.child name) name disk = (.ok (), after)) :
    after.isDirectory (root.child name) = true ∧
      (disk.isDirectory (root.child name) = true → after = disk) := by
  unfold ensureDirectory at h
  split at h
  next hthere =>
    obtain rfl := congrArg Prod.snd h
    exact ⟨hthere, fun _ => rfl⟩
  next hthere =>
    split at h
    next => simp at h
    next =>
      rcases hmade : disk.makeDirectories (root.child name) with ⟨result, made⟩
      rw [hmade] at h
      simp only [Prod.mk.injEq] at h
      obtain ⟨hresult, rfl⟩ := h
      cases result with
      | error failure => simp [Except.mapError] at hresult
      | ok =>
        exact ⟨Disk.isDirectory_of_makeDirectories hsound (isName_of_isValidName hname) hmade,
          fun hthere' => absurd hthere' hthere⟩

/-! ## The whole topic -/

section Recover

variable {root : Path} {name : String} {topic : Topic}

/-- A topic that has been opened: the disk with its directory, on which its partitions were then
opened one after another. -/
structure OpenedTopic (config : Config) (root : Path) (name : String) (topic : Topic)
    (disk made after : Disk) (here : Nat) : Prop where
  valid : isValidName name = true
  adds : AddsDirectories disk made
  made_eq : disk.isDirectory (root.child name) = true → made = disk
  directory : made.resolve (root.child name) = .ok (.directory here)
  topic_eq : topic = {
    name, partitions := topic.partitions
    queue := .ofFanout config.fanout
    durable := config.openFlags.contains .durable
    maxEntryBytes := config.maxEntryBytes
    maxMapBytes := config.effectiveMaxMapBytes }
  numbers : topic.partitions.map Partition.number = partitionNumbers config
  spares : Spares made after fun place =>
    ∀ number ∈ partitionNumbers config, place ≠ filePlace here number
  opened : ∀ p ∈ topic.partitions, ∃ found,
    OpenedFrom config (root.child name) here made after p found

theorem recover_ok (hsound : disk.Sound) (h : recover config root name disk = (.ok topic, after)) :
    ∃ made here, OpenedTopic config root name topic disk made after here := by
  unfold recover at h
  split at h
  next => simp at h
  next hvalid =>
    rw [Bool.not_eq_true', Bool.not_eq_false] at hvalid
    rcases hensure : ensureDirectory config (root.child name) name disk with ⟨_ | _, made⟩
    · simp [hensure] at h
    · have hadds := addsDirectories_ensureDirectory config (root.child name) name hsound
      rw [hensure] at hadds
      obtain ⟨hthere, hsame⟩ := ensureDirectory_ok hvalid hsound hensure
      obtain ⟨here, hresolve⟩ := Disk.exists_of_isDirectory hthere
      rcases hrun : recoverPartitions config (root.child name) (partitionNumbers config) made with
        ⟨result, last⟩
      simp only [hensure, hrun, Prod.mk.injEq] at h
      obtain ⟨htopic, rfl⟩ := h
      cases result with
      | error e => simp [Except.map] at htopic
      | ok ps =>
        obtain rfl := Except.ok.inj htopic
        obtain ⟨hnumbers, hspares, hopened⟩ := recoverPartitions_ok _ made ps
          (nodup_partitionNumbers config) hadds.sound (Disk.follow_of_resolve hresolve) hrun
        exact ⟨made, here, hvalid, hadds, hsame, hresolve, rfl, hnumbers, hspares, hopened⟩

namespace OpenedTopic

variable {made : Disk} (h : OpenedTopic config root name topic disk made after here)

include h

/-- On a disk whose names and bytes are those behind the opening, the topic is opened again as it
is, and nothing is done to the disk. -/
theorem recover_again (hdirectories : later.directories = after.directories)
    (hcontents : later.contents = after.contents) :
    recover config root name later = (.ok topic, later) := by
  have hspares : Spares after later fun _ => True :=
    { grows := Disk.grows_of_directories hdirectories
      entryAt?_kept := fun place _ => Disk.entryAt?_congr hdirectories place
      content_kept := fun _ number _ _ => by rw [Disk.content, hcontents, Disk.content]
      sound := Disk.sound_of_directories h.spares.sound hdirectories (by rw [hcontents])
        fun number => by
          rw [Disk.content, hcontents]
          exact h.spares.sound.length_le number }
  have hdirectory : later.isDirectory (root.child name) = true := by
    have hresolve := h.spares.grows.resolve h.adds.sound h.directory
    rw [← Disk.resolve_congr hdirectories] at hresolve
    unfold Disk.isDirectory
    rw [hresolve]
  have hpartitions : recoverPartitions config (root.child name) (partitionNumbers config) later
      = (.ok topic.partitions, later) := by
    rw [← h.numbers]
    refine recoverPartitions_of_standing here _ fun p hp => ?_
    obtain ⟨found, hopened⟩ := h.opened p hp
    exact ⟨_, hopened.standing.spares h.spares.sound hspares trivial⟩
  have hensure : ensureDirectory config (root.child name) name later = (.ok (), later) := by
    unfold ensureDirectory
    rw [if_pos hdirectory]
  unfold recover
  rw [h.valid]
  simp only [Bool.not_true, Bool.false_eq_true, if_false, hensure, hpartitions, Except.map]
  rw [← h.topic_eq]

/-- A scan of all files finds the tails that were opened. -/
theorem verify (happend : config.openFlags.contains .append = true) :
    topic.verify after = .ok topic.tails := by
  refine verify_of_partitions fun p hp => ?_
  obtain ⟨found, hopened⟩ := h.opened p hp
  have hstanding := hopened.standing
  have hnone : (settled config found).torn = none := by rw [settled, if_pos happend]
  rw [h.topic_eq, Partition.verify, hstanding.scan]
  simp only [bind, Except.bind, hnone, ← hstanding.tailOffset, Nat.lt_irrefl, if_false, pure,
    Except.pure]
  rfl

end OpenedTopic

end Recover

end CommitLog.Topic
