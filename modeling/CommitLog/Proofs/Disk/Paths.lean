import CommitLog.Proofs.Disk.Keeps

/-!
# Operations by path

What is done through a path that leads to a place, told by what stands there. A path that is
refused before it is followed, and a name that is too long to be looked up, fail and change
nothing.
-/

namespace CommitLog.Disk

variable {disk : Disk} {path : Path} {place : Place} {number : Nat} {failure : Failure}

/-- The file at a place has these bytes; a file that is missing has none. -/
def Stores (disk : Disk) (place : Place) (bytes : Bytes) : Prop :=
  (∃ number, disk.entryAt? place = some (.file number) ∧ disk.content number = bytes) ∨
    (disk.entryAt? place = none ∧ bytes = [])

theorem Stores.length_le {bytes : Bytes} (hdisk : disk.Sound) (h : disk.Stores place bytes) :
    bytes.length ≤ maxFileLength := by
  rcases h with ⟨number, -, rfl⟩ | ⟨-, rfl⟩
  · exact hdisk.length_le number
  · exact Nat.zero_le _

theorem Stores.content {bytes : Bytes} (h : disk.Stores place bytes)
    (hentry : disk.entryAt? place = some (.file number)) : disk.content number = bytes := by
  rcases h with ⟨found, hfound, hcontent⟩ | ⟨hnone, -⟩
  · rw [hentry] at hfound
    obtain rfl := Entry.file.inj (Option.some.inj hfound)
    exact hcontent
  · rw [hentry] at hnone
    simp at hnone

/-- A place that is left alone stores what it stored. -/
theorem Keeps.stores {after : Disk} {kept : Place → Prop} {bytes : Bytes}
    (h : Keeps disk after kept) (hplace : kept place) (hstores : disk.Stores place bytes) :
    after.Stores place bytes := by
  rcases hstores with ⟨number, hentry, hcontent⟩ | ⟨hentry, hbytes⟩
  · refine Or.inl ⟨number, h.entryAt?_some place _ hentry, ?_⟩
    rw [h.content_kept place number hplace hentry, hcontent]
  · exact Or.inr ⟨by rw [h.entryAt?_kept place hplace, hentry], hbytes⟩

theorem refusal?_ne_notFound (path : Path) : refusal? path ≠ some .notFound := by
  unfold refusal?
  split
  · simp
  · split <;> simp

/-! ## Files -/

/-- What is opened for appending when a name stands for this. -/
def Entry.handle? : Entry → Option Handle
  | .file number => some (.file number)
  | .device => some .device
  | .directory _ => none

section Files

variable (h : disk.Names path place) (hshort : place.name.utf8ByteSize ≤ nameLimit)

include h hshort

theorem read_of_file (hentry : disk.entryAt? place = some (.file number)) :
    disk.read path = .ok (disk.content number) := by
  unfold read
  rw [resolve_of_names h, lookup_of_short hshort, hentry]

theorem read_of_none (hentry : disk.entryAt? place = none) : disk.read path = .error .notFound := by
  unfold read
  rw [resolve_of_names h, lookup_of_short hshort, hentry]

theorem openAppend_of_entry {entry : Entry} (hentry : disk.entryAt? place = some entry)
    (create : Bool) :
    disk.openAppend path create
      = match entry.handle? with
        | some handle => .ok (handle, disk)
        | none => .error .isDirectory := by
  rw [openAppend, endsInDirectory_of_names h, Bool.and_false, if_neg Bool.false_ne_true,
    resolve_of_names h, lookup_of_short hshort, hentry]
  cases entry <;> rfl

theorem openAppend_of_file (hentry : disk.entryAt? place = some (.file number)) (create : Bool) :
    disk.openAppend path create = .ok (.file number, disk) :=
  openAppend_of_entry h hshort hentry create

theorem openAppend_of_none (hentry : disk.entryAt? place = none) (create : Bool) :
    disk.openAppend path create
      = if create then .ok (.file disk.contents.size, disk.createFile place)
        else .error .notFound := by
  rw [openAppend, endsInDirectory_of_names h, Bool.and_false, if_neg Bool.false_ne_true,
    resolve_of_names h, lookup_of_short hshort, hentry]
  simp only [openNew, place_of_names h]

end Files

theorem resolve_of_refused (h : refusal? path = some failure) :
    disk.resolve path = .error failure := by
  unfold resolve
  rw [h]

/-! ## Directories -/

theorem isDirectory_of_names (h : disk.Names path place)
    (hentry : disk.entryAt? place = some (.directory number))
    (hshort : place.name.utf8ByteSize ≤ nameLimit) : disk.isDirectory path = true := by
  unfold isDirectory
  rw [resolve_of_names h, lookup_of_short hshort, hentry]

theorem exists_of_isDirectory (h : disk.isDirectory path = true) :
    ∃ number, disk.resolve path = .ok (.directory number) := by
  unfold isDirectory at h
  split at h
  next number hresolve => exact ⟨number, hresolve⟩
  next => simp at h

theorem isDirectory_of_resolve (h : ∀ number, disk.resolve path ≠ .ok (.directory number)) :
    disk.isDirectory path = false := by
  unfold isDirectory
  split
  next number hresolve => exact absurd hresolve (h number)
  next => rfl

theorem isDirectory_of_none (h : disk.Names path place) (hentry : disk.entryAt? place = none)
    (hshort : place.name.utf8ByteSize ≤ nameLimit) : disk.isDirectory path = false := by
  refine isDirectory_of_resolve fun number => ?_
  rw [resolve_of_names h, lookup_of_short hshort, hentry]
  simp

/-- A directory is made at a place where nothing stands. -/
theorem makeDirectories_of_none (h : disk.Names path place)
    (hshort : place.name.utf8ByteSize ≤ nameLimit) (hentry : disk.entryAt? place = none) :
    disk.makeDirectories path = (.ok (), disk.createDirectory place) := by
  unfold makeDirectories ensureDirectory makeDirectory
  rw [place_of_names h]
  simp only [lookup_of_short hshort, hentry]

/-- Nothing is made above a directory that cannot be made for another reason than that. -/
theorem makeDirectories_of_error (h : disk.makeDirectory path = .error failure)
    (hfailure : failure ≠ .notFound) (hdirectory : disk.isDirectory path = false) :
    disk.makeDirectories path = (.error failure, disk) := by
  have hensure : disk.ensureDirectory path = (.error failure, disk) := by
    unfold ensureDirectory
    rw [h]
    simp only [hdirectory, Bool.false_eq_true, if_false]
  unfold makeDirectories
  rw [hensure]
  cases failure with
  | notFound => exact absurd rfl hfailure
  | _ => rfl

theorem makeDirectories_of_refused (h : refusal? path = some failure) :
    disk.makeDirectories path = (.error failure, disk) := by
  refine makeDirectories_of_error ?_ ?_ (isDirectory_of_resolve ?_)
  · unfold makeDirectory Disk.place
    rw [h]
  · rintro rfl
    exact refusal?_ne_notFound path h
  · intro number
    rw [resolve_of_refused h]
    simp

theorem makeDirectories_of_long (h : disk.Names path place)
    (hlong : nameLimit < place.name.utf8ByteSize) :
    disk.makeDirectories path = (.error .nameTooLong, disk) := by
  refine makeDirectories_of_error ?_ (by simp) (isDirectory_of_resolve ?_)
  · unfold makeDirectory
    rw [place_of_names h]
    simp only [lookup_of_long hlong]
  · intro number
    rw [resolve_of_names h, lookup_of_long hlong]
    simp

end CommitLog.Disk
