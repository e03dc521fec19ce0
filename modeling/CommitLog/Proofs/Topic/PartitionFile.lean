import CommitLog.Proofs.Partition.Append
import CommitLog.Proofs.Disk.Paths
import CommitLog.Topic.Recover

/-!
# Recovering one partition

Every partition has a file name of its own, and a directory can hold it. The digits of the number
are filled up with zeros, which a number does not notice.

A partition is recovered from its file alone: the scan finds the whole frames, what a crash has left
behind them is cut off, and the index is taken from the frames. A file that is missing is made, if
it may be. Nothing else on the disk is touched, and `recoverPartition_cases` says what comes of it:
either an error, and the file holds what it held, or a partition that holds the whole frames.
-/

namespace CommitLog.Topic

open CommitLog.Disk (IsName Place Keeps Edits nameLimit)
open CommitLog.Frame (IsCommit)
open CommitLog.Partition (encodeAll entryCount locations Leftover)

variable {config : Config} {disk : Disk} {directory : Path} {place : Place} {number : UInt32}
  {here file : Nat} {frames : List Frame} {leftover : Bytes}

/-! ## Names of partition files -/

/-- The digits of a partition number, filled up to five. -/
def fileDigits (number : UInt32) : List Char :=
  List.replicate (5 - (toString number.toNat).length) '0' ++ Nat.toDigits 10 number.toNat

theorem toList_fileName (number : UInt32) :
    (fileName number).toList = "partition-".toList ++ (fileDigits number ++ ".log".toList) := by
  simp [fileName, fileDigits, String.toList_append, String.toList_ofList]

theorem ofDigitChars_fileDigits (number : UInt32) :
    Nat.ofDigitChars 10 (fileDigits number) 0 = number.toNat := by
  rw [fileDigits, Nat.ofDigitChars_append, Nat.ofDigitChars_replicate_zero, Nat.mul_zero,
    Nat.ofDigitChars_toDigits (by decide) (by decide)]

/-- No two partitions have one file name. -/
theorem fileName_injective {number other : UInt32} (h : fileName number = fileName other) :
    number = other := by
  have hlist := congrArg String.toList h
  rw [toList_fileName, toList_fileName] at hlist
  have hdigits := List.append_cancel_right (List.append_cancel_left hlist)
  have hvalue := congrArg (fun digits => Nat.ofDigitChars 10 digits 0) hdigits
  simp only [ofDigitChars_fileDigits] at hvalue
  exact UInt32.toNat.inj hvalue

theorem length_fileDigits_le (number : UInt32) : (fileDigits number).length ≤ 10 := by
  have hdigits : (Nat.toDigits 10 number.toNat).length ≤ 10 :=
    (Nat.length_toDigits_le_iff (by decide) (by decide)).2
      (Nat.lt_trans number.toNat_lt (by decide))
  rw [fileDigits, List.length_append, List.length_replicate, Nat.toString_eq_repr,
    ← String.length_toList, Nat.toList_repr]
  omega

theorem utf8ByteSize_ofList_le (chars : List Char) :
    (String.ofList chars).utf8ByteSize ≤ 4 * chars.length := by
  induction chars with
  | nil => simp
  | cons c later ih =>
    have hsplit : String.ofList (c :: later) = String.singleton c ++ String.ofList later := by simp
    have hsize := c.utf8Size_le_four
    rw [hsplit, String.utf8ByteSize_append, String.utf8ByteSize_singleton, List.length_cons]
    omega

theorem short_fileName (number : UInt32) : (fileName number).utf8ByteSize ≤ nameLimit := by
  have hlength : (fileName number).toList.length ≤ 24 := by
    have hdigits := length_fileDigits_le number
    have hfront : "partition-".toList.length = 10 := by decide
    have hback : ".log".toList.length = 4 := by decide
    rw [toList_fileName, List.length_append, List.length_append, hfront, hback]
    omega
  have hsize := utf8ByteSize_ofList_le (fileName number).toList
  rw [String.ofList_toList] at hsize
  have hlimit : nameLimit = 255 := rfl
  omega

theorem isName_fileName (number : UInt32) : IsName (fileName number) := by
  have hhead : (fileName number).toList.head? = some 'p' := by
    rw [toList_fileName]
    simp
  constructor
  · unfold Path.stays
    rw [Bool.or_eq_false_iff]
    constructor
    all_goals
      rw [beq_eq_false_iff_ne]
      intro h
      rw [h] at hhead
      simp at hhead
  · intro h
    rw [h] at hhead
    simp [Path.upward] at hhead

/-- A valid name of a topic is a segment that is looked up. -/
theorem isName_of_isValidName {name : String} (h : isValidName name = true) : IsName name := by
  simp only [isValidName, Bool.not_eq_true', Bool.or_eq_false_iff, beq_eq_false_iff_ne] at h
  obtain ⟨⟨⟨hempty, hdot⟩, hup⟩, -⟩ := h
  refine ⟨?_, hup⟩
  unfold Path.stays
  rw [Bool.or_eq_false_iff, beq_eq_false_iff_ne, beq_eq_false_iff_ne]
  refine ⟨?_, hdot⟩
  rintro rfl
  simp at hempty

/-! ## Files of partitions -/

/-- The path of the file of a partition. -/
def filePath (root : Path) (name : String) (number : UInt32) : Path :=
  (root.child name).child (fileName number)

/-- The place of the file of a partition, in the directory of its topic. -/
def filePlace (directory : Nat) (number : UInt32) : Place := ⟨directory, fileName number⟩

theorem filePlace_injective {other : UInt32}
    (h : filePlace here number = filePlace here other) : number = other :=
  fileName_injective (congrArg Place.name h)

/-! ## Cutting and repairing -/

/-- Cutting a file cuts off what stands behind its whole frames. -/
theorem cut_of_file {path : Path} (hnames : disk.Names path place)
    (hshort : place.name.utf8ByteSize ≤ nameLimit) (hsound : disk.Sound)
    (hreliable : disk.Reliable) (hentry : disk.entryAt? place = some (.file file))
    {front : Bytes} (hcontent : disk.content file = front ++ leftover) :
    ∃ after, cut disk path front.length = (.ok (), after) ∧ Edits disk after file front := by
  have hlength : front.length ≤ (disk.content file).length := by
    rw [hcontent, List.length_append]
    exact Nat.le_add_right _ _
  obtain ⟨shortened, hset, hedits⟩ := Disk.setLength_of_reliable hreliable
    (hsound.file_lt place file hentry) hlength
  rw [hcontent, List.take_left' rfl] at hedits
  obtain ⟨synced, hsync, hsynced⟩ := Disk.sync_of_reliable hedits.reliable file
  rw [hedits.content] at hsynced
  refine ⟨synced, ?_, hedits.trans hsynced⟩
  unfold cut
  rw [Disk.openAppend_of_file hnames hshort hentry]
  simp only [hset, hsync]

/-- Repairing a file leaves its whole frames. -/
theorem repair_of_file (found : Partition.Scan) {path : Path} (hnames : disk.Names path place)
    (hshort : place.name.utf8ByteSize ≤ nameLimit) (hsound : disk.Sound)
    (hreliable : disk.Reliable) (hentry : disk.entryAt? place = some (.file file))
    {front : Bytes} (hcontent : disk.content file = front ++ leftover)
    (hvalid : found.validBytes = front.length)
    (htorn : found.torn.isSome ↔ leftover ≠ [])
    (hrepair : leftover = [] ∨
      config.repairTornTail = true ∧ config.openFlags.contains .append = true) :
    ∃ after, repair config disk path found = (.ok (), after) ∧ Keeps disk after (· ≠ place) ∧
      after.entryAt? place = some (.file file) ∧ after.content file = front := by
  unfold repair
  cases hfound : found.torn with
  | none =>
    have hempty : leftover = [] := by
      rw [hfound] at htorn
      simpa using htorn
    rw [hempty, List.append_nil] at hcontent
    exact ⟨disk, rfl, Keeps.refl hsound hreliable _, hentry, hcontent⟩
  | some torn =>
    have hne : leftover ≠ [] := htorn.1 (by rw [hfound]; rfl)
    obtain ⟨hcuts, happend⟩ := hrepair.resolve_left hne
    obtain ⟨after, hcut, hedits⟩ := cut_of_file hnames hshort hsound hreliable hentry hcontent
    have hfront : front.length ≤ Disk.maxFileLength := by
      have hle := hsound.length_le file
      rw [hcontent, List.length_append] at hle
      omega
    simp only [hcuts, Bool.not_true, Bool.false_eq_true, if_false, happend, if_true, hvalid, hcut]
    exact ⟨after, rfl, hedits.keeps hsound hfront hentry, by rw [hedits.entryAt?, hentry],
      hedits.content⟩

/-- The partition that is made of the whole frames of a file. -/
theorem holds_recordAll (number : UInt32) (frames : List Frame) {path : Path} {after : Disk}
    (hnames : after.Names path place)
    (hshort : place.name.utf8ByteSize ≤ nameLimit)
    (hstores : after.Stores place (encodeAll frames)) {handle : Option Disk.Handle}
    (hhandle : ∀ opened, handle = some opened →
      ∃ file, opened = .file file ∧ after.entryAt? place = some (.file file)) :
    ({ Partition.recordAll { number, path } (locations frames) with handle } : Partition).Holds
      after place frames := by
  rw [Partition.recordAll_locations]
  exact ⟨hnames, hshort, hstores, rfl, rfl, rfl, hhandle⟩

/-! ## Recovering -/

/-- What recovering a partition comes to. -/
inductive Recovered (config : Config) (disk : Disk) (directory : Path) (place : Place)
    (number : UInt32) (frames : List Frame) : Except LogError Partition → Disk → Prop where
  | failed (e : LogError) : Recovered config disk directory place number frames (.error e) disk
  /-- The partition holds the whole frames of its file. -/
  | opened {p : Partition} {after : Disk} (number_eq : p.number = number)
      (path_eq : p.path = directory.child (fileName number))
      (handle : p.handle.isSome = config.openFlags.contains .append)
      (keeps : Keeps disk after (· ≠ place)) (holds : p.Holds after place frames) :
      Recovered config disk directory place number frames (.ok p) after

/-- A file of whole frames and what is to be cut off behind them, as a scan finds it. -/
theorem recoverPartition_of_scan (hnames : disk.Names (directory.child (fileName number)) place)
    (hshort : place.name.utf8ByteSize ≤ nameLimit) (hsound : disk.Sound)
    (hreliable : disk.Reliable) (hentry : disk.entryAt? place = some (.file file))
    (hcontent : disk.content file = encodeAll frames ++ leftover) {torn : Option Partition.Torn}
    (hscan : Partition.scan config.maxEntryBytes config.effectiveMaxMapBytes (disk.content file)
      = .ok ⟨locations frames, (encodeAll frames).length, entryCount frames, torn⟩)
    (htorn : torn.isSome ↔ leftover ≠ [])
    (hrepair : leftover = [] ∨
      config.repairTornTail = true ∧ config.openFlags.contains .append = true) :
    ∃ p after, recoverPartition config directory number disk = (.ok p, after) ∧
      p.number = number ∧ p.path = directory.child (fileName number) ∧
      p.handle.isSome = config.openFlags.contains .append ∧
      Keeps disk after (· ≠ place) ∧ p.Holds after place frames := by
  have hfound : Partition.scanFile disk (directory.child (fileName number)) config.maxEntryBytes
      config.effectiveMaxMapBytes
      = .ok ⟨locations frames, (encodeAll frames).length, entryCount frames, torn⟩ :=
    Partition.scanFile_of_scan (Disk.read_of_file hnames hshort hentry) hscan
  obtain ⟨after, hrun, hkeeps, hstays, hrepaired⟩ :=
    repair_of_file ⟨locations frames, (encodeAll frames).length, entryCount frames, torn⟩ hnames
      hshort hsound hreliable hentry hcontent rfl htorn hrepair
  have hafter := hkeeps.names hsound hnames
  unfold recoverPartition
  simp only [hfound, hrun, openFile]
  cases happend : config.openFlags.contains .append with
  | false =>
    refine ⟨_, after, rfl, by rw [Partition.recordAll_locations],
      by rw [Partition.recordAll_locations], rfl, hkeeps, ?_⟩
    exact holds_recordAll number frames hafter hshort (Or.inl ⟨file, hstays, hrepaired⟩) (by simp)
  | true =>
    simp only [Disk.openAppend_of_file hafter hshort hstays, if_true]
    refine ⟨_, after, rfl, by rw [Partition.recordAll_locations],
      by rw [Partition.recordAll_locations], rfl, hkeeps, ?_⟩
    exact holds_recordAll number frames hafter hshort (Or.inl ⟨file, hstays, hrepaired⟩)
      (by simpa using hstays)

/-- A file of commits and what a crash has left behind them. -/
theorem recoverPartition_of_file (hnames : disk.Names (directory.child (fileName number)) place)
    (hshort : place.name.utf8ByteSize ≤ nameLimit) (hsound : disk.Sound)
    (hreliable : disk.Reliable) (hentry : disk.entryAt? place = some (.file file))
    (hcontent : disk.content file = encodeAll frames ++ leftover)
    (hframes : ∀ frame ∈ frames, IsCommit config.maxEntryBytes frame)
    (hleft : Leftover config.maxEntryBytes leftover)
    (hrepair : leftover = [] ∨
      config.repairTornTail = true ∧ config.openFlags.contains .append = true) :
    ∃ p after, recoverPartition config directory number disk = (.ok p, after) ∧
      p.number = number ∧ p.path = directory.child (fileName number) ∧
      p.handle.isSome = config.openFlags.contains .append ∧
      Keeps disk after (· ≠ place) ∧ p.Holds after place frames := by
  obtain ⟨torn, hscan, htorn⟩ :=
    Partition.scan_of_leftover hframes hleft config.effectiveMaxMapBytes
  rw [← hcontent] at hscan
  exact recoverPartition_of_scan hnames hshort hsound hreliable hentry hcontent hscan htorn hrepair

/-- A file that is missing, and is made if it may be. -/
theorem recoverPartition_of_none (hnames : disk.Names (directory.child (fileName number)) place)
    (hshort : place.name.utf8ByteSize ≤ nameLimit) (hsound : disk.Sound)
    (hreliable : disk.Reliable) (hentry : disk.entryAt? place = none) :
    ∃ result after, recoverPartition config directory number disk = (result, after) ∧
      Recovered config disk directory place number [] result after := by
  have hfound : Partition.scanFile disk (directory.child (fileName number)) config.maxEntryBytes
      config.effectiveMaxMapBytes = .ok .empty := by
    unfold Partition.scanFile
    rw [Disk.read_of_none hnames hshort hentry]
  unfold recoverPartition
  simp only [hfound, repair, Partition.Scan.empty, openFile]
  cases happend : config.openFlags.contains .append with
  | false =>
    refine ⟨_, disk, rfl, .opened rfl rfl ?_ (Keeps.refl hsound hreliable _) ?_⟩
    · rw [happend]
      rfl
    · exact holds_recordAll number [] hnames hshort (Or.inr ⟨hentry, rfl⟩) (by simp)
  | true =>
    rw [if_pos rfl, Disk.openAppend_of_none hnames hshort hentry]
    cases hcreate : config.openFlags.contains .create with
    | false => exact ⟨_, disk, rfl, .failed _⟩
    | true =>
      have hplace := Disk.directory_lt_of_names hnames hsound
      have hkeeps := Disk.keeps_createFile hsound hreliable hplace hentry
      have hmade : (disk.createFile place).entryAt? place = some (.file disk.contents.size) := by
        rw [Disk.entryAt?_createFile hplace, if_pos rfl]
      have hempty : (disk.createFile place).content disk.contents.size = [] := by
        rw [Disk.content_createFile, Disk.content_of_size_le (Nat.le_refl _)]
      refine ⟨_, disk.createFile place, rfl, .opened rfl rfl ?_ hkeeps ?_⟩
      · rw [happend]
        rfl
      · exact holds_recordAll number [] (hkeeps.names hsound hnames) hshort
          (Or.inl ⟨_, hmade, hempty⟩) (by simpa using hmade)

/-- A path that is refused ends the recovery at once. -/
theorem recoverPartition_of_refused {failure : Disk.Failure}
    (h : Disk.refusal? (directory.child (fileName number)) = some failure) :
    ∃ e, recoverPartition config directory number disk = (.error e, disk) := by
  have hread : disk.read (directory.child (fileName number)) = .error failure := by
    unfold Disk.read
    rw [Disk.resolve_of_refused h]
  have hne : failure ≠ .notFound := by
    rintro rfl
    exact Disk.refusal?_ne_notFound _ h
  have hfound : Partition.scanFile disk (directory.child (fileName number)) config.maxEntryBytes
      config.effectiveMaxMapBytes
      = .error (.io failure (directory.child (fileName number)).display) := by
    unfold Partition.scanFile
    rw [hread]
    cases failure with
    | notFound => exact absurd rfl hne
    | _ => rfl
  unfold recoverPartition
  simp only [hfound]
  exact ⟨_, rfl⟩

/-- Whatever becomes of a partition, its file holds what it held or its whole frames. -/
theorem recoverPartition_cases
    (hnames : Disk.refusal? (directory.child (fileName number)) = none →
      disk.Names (directory.child (fileName number)) place)
    (hshort : place.name.utf8ByteSize ≤ nameLimit) (hsound : disk.Sound)
    (hreliable : disk.Reliable) (hstores : disk.Stores place (encodeAll frames ++ leftover))
    (hframes : ∀ frame ∈ frames, IsCommit config.maxEntryBytes frame)
    (hleft : Leftover config.maxEntryBytes leftover)
    (hrepair : leftover = [] ∨
      config.repairTornTail = true ∧ config.openFlags.contains .append = true) :
    ∃ result after, recoverPartition config directory number disk = (result, after) ∧
      Recovered config disk directory place number frames result after := by
  cases hrefused : Disk.refusal? (directory.child (fileName number)) with
  | some failure =>
    obtain ⟨e, hrun⟩ := recoverPartition_of_refused hrefused
    exact ⟨_, _, hrun, .failed e⟩
  | none =>
    have hpath := hnames hrefused
    rcases hstores with ⟨file, hentry, hcontent⟩ | ⟨hentry, hempty⟩
    · obtain ⟨p, after, hrun, hnumber, hpathEq, hhandle, hkeeps, hholds⟩ :=
        recoverPartition_of_file hpath hshort hsound hreliable hentry hcontent hframes hleft hrepair
      exact ⟨_, _, hrun, .opened hnumber hpathEq hhandle hkeeps hholds⟩
    · obtain rfl := Partition.encodeAll_eq_nil (List.append_eq_nil_iff.1 hempty).1
      exact recoverPartition_of_none hpath hshort hsound hreliable hentry

/-! ## A disk with one file -/

/-- There is a disk with a topic of one partition, whose file holds whatever fits. -/
theorem exists_disk_of_content (data : Bytes) (h : data.length ≤ Disk.maxFileLength) :
    ∃ disk : Disk, disk.Sound ∧ disk.Reliable ∧
      disk.isDirectory (Path.child ⟨["", ""]⟩ "t") = true ∧
      ∃ file, disk.resolve (filePath ⟨["", ""]⟩ "t" 0) = .ok (.file file) ∧
        disk.content file = data := by
  have hreliable : ({} : Disk).Reliable := by simp [Disk.Reliable]
  have hmade : Keeps {} (({} : Disk).createDirectory ⟨0, "t"⟩) (· ≠ ⟨0, "t"⟩) :=
    Disk.keeps_createDirectory Disk.sound_new hreliable Nat.zero_lt_one (Disk.entryAt?_new _)
  have hfile : Keeps (({} : Disk).createDirectory ⟨0, "t"⟩)
      ((({} : Disk).createDirectory ⟨0, "t"⟩).createFile ⟨1, fileName 0⟩) (· ≠ ⟨1, fileName 0⟩) :=
    Disk.keeps_createFile hmade.sound hmade.reliable (by decide) rfl
  have hsize : 0 < ((({} : Disk).createDirectory ⟨0, "t"⟩).createFile
      ⟨1, fileName 0⟩).contents.size := by decide
  have hedits := Disk.edits_setContent hfile.reliable hsize data
  exact ⟨_, hedits.sound hfile.sound h, hedits.reliable, rfl, 0, rfl, hedits.content⟩

end CommitLog.Topic
