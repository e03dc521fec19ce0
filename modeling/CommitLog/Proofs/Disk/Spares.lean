import CommitLog.Proofs.Disk.Faults
import CommitLog.Proofs.Disk.Paths

/-!
# What is left alone whatever goes wrong

`Keeps` speaks of disks on which nothing is to go wrong. What an operation has to do with a place is
the same on any disk: `Spares` says that the places of a set are as before, and makes no promise of
what comes next. Making directories is less than that: no file is made or changed, and every name
that leads somewhere stays (`AddsDirectories`).
-/

namespace CommitLog.Disk

variable {disk after last : Disk} {path : Path} {place : Place} {number : Nat} {bytes : Bytes}
  {failure : Failure} {kept fewer : Place → Prop}

/-! ## Places that are left alone -/

/-- Places that an operation has nothing to do with are as before, and no name is gone. -/
structure Spares (disk after : Disk) (kept : Place → Prop) : Prop where
  grows : Grows disk after
  entryAt?_kept : ∀ place, kept place → after.entryAt? place = disk.entryAt? place
  content_kept : ∀ place number, kept place → disk.entryAt? place = some (.file number) →
    after.content number = disk.content number
  sound : after.Sound

namespace Spares

theorem refl (hsound : disk.Sound) (kept : Place → Prop) : Spares disk disk kept :=
  ⟨.refl disk, fun _ _ => rfl, fun _ _ _ _ => rfl, hsound⟩

theorem trans (h : Spares disk after kept) (h' : Spares after last kept) :
    Spares disk last kept where
  grows := h.grows.trans h'.grows
  entryAt?_kept place hp := by rw [h'.entryAt?_kept place hp, h.entryAt?_kept place hp]
  content_kept place number hp he := by
    rw [h'.content_kept place number hp (h.grows.entryAt?_some _ _ he),
      h.content_kept place number hp he]
  sound := h'.sound

theorem mono (h : Spares disk after kept) (hfewer : ∀ place, fewer place → kept place) :
    Spares disk after fewer where
  grows := h.grows
  entryAt?_kept place hp := h.entryAt?_kept place (hfewer place hp)
  content_kept place number hp := h.content_kept place number (hfewer place hp)
  sound := h.sound

/-- A path to a place that is left alone is read as before. -/
theorem read_eq (h : Spares disk after kept) (hdisk : disk.Sound) (hnames : disk.Names path place)
    (hshort : place.name.utf8ByteSize ≤ nameLimit) (hplace : kept place) :
    after.read path = disk.read path := by
  unfold read
  rw [resolve_of_names hnames, resolve_of_names (h.grows.names hdisk hnames),
    lookup_of_short hshort, lookup_of_short hshort, h.entryAt?_kept place hplace]
  cases hentry : disk.entryAt? place with
  | none => rfl
  | some entry =>
    cases entry with
    | file number => exact congrArg Except.ok (h.content_kept place number hplace hentry)
    | directory => rfl
    | device => rfl

end Spares

/-! ## Files -/

/-- Whatever becomes of the file at a place, all other places are left alone. -/
theorem Alters.spares (h : Alters disk after number bytes) (hdisk : disk.Sound)
    (hbytes : bytes.length ≤ maxFileLength) (hplace : disk.entryAt? place = some (.file number)) :
    Spares disk after (· ≠ place) where
  grows := grows_of_directories h.directories
  entryAt?_kept other _ := entryAt?_congr h.directories other
  content_kept other found hne he := by
    refine h.content_of_ne found ?_
    rintro rfl
    exact hne (hdisk.file_unique other place found he hplace)
  sound := by
    refine sound_of_directories hdisk h.directories h.size fun found => ?_
    by_cases hfound : found = number
    · rw [hfound, h.content]
      exact hbytes
    · rw [h.content_of_ne found hfound]
      exact hdisk.length_le found

theorem spares_createFile (hdisk : disk.Sound) (hplace : place.directory < disk.directories.size)
    (hnone : disk.entryAt? place = none) : Spares disk (disk.createFile place) (· ≠ place) where
  grows := grows_createFile hplace hnone
  entryAt?_kept other hne := by rw [entryAt?_createFile hplace, if_neg hne]
  content_kept _ number _ _ := content_createFile place number
  sound := sound_createFile hdisk hplace

/-! ## Directories -/

/-- There are more directories, and everything else is as before. -/
structure AddsDirectories (disk after : Disk) : Prop where
  grows : Grows disk after
  /-- What leads to a file has led to it before. -/
  file_of : ∀ place number, after.entryAt? place = some (.file number) →
    disk.entryAt? place = some (.file number)
  contents : after.contents = disk.contents
  sound : after.Sound

namespace AddsDirectories

theorem refl (hsound : disk.Sound) : AddsDirectories disk disk :=
  ⟨.refl disk, fun _ _ h => h, rfl, hsound⟩

theorem trans (h : AddsDirectories disk after) (h' : AddsDirectories after last) :
    AddsDirectories disk last where
  grows := h.grows.trans h'.grows
  file_of place number he := h.file_of place number (h'.file_of place number he)
  contents := h'.contents.trans h.contents
  sound := h'.sound

end AddsDirectories

theorem addsDirectories_createDirectory (hdisk : disk.Sound)
    (hplace : place.directory < disk.directories.size) (hnone : disk.entryAt? place = none) :
    AddsDirectories disk (disk.createDirectory place) where
  grows := grows_createDirectory hplace hnone
  file_of other number he := by
    rw [entryAt?_createDirectory hplace] at he
    split at he
    · simp at he
    · exact he
  contents := rfl
  sound := sound_createDirectory hdisk hplace

/-- A place is in a directory that is there, and the path is one that leads there. -/
theorem exists_follow_of_place (h : disk.place path = .ok (some place)) :
    refusal? path = none ∧ path.withoutSlashes.getLast? = some place.name ∧ IsName place.name ∧
      disk.follow (.directory top) path.withoutSlashes.dropLast
        = .ok (.directory place.directory) := by
  unfold Disk.place at h
  split at h
  next => simp at h
  next => simp at h
  next last hrefusal hlast =>
    split at h
    next => simp at h
    next here hfollow =>
      split at h
      next => simp at h
      next hname =>
        obtain rfl := Option.some.inj (Except.ok.inj h)
        rw [Bool.or_eq_true, not_or, Bool.not_eq_true] at hname
        exact ⟨hrefusal, hlast, ⟨hname.1, by simpa using hname.2⟩, hfollow⟩
    next => simp at h

/-- A directory is made at the place of its path, where nothing stood. -/
theorem exists_place_of_makeDirectory (h : disk.makeDirectory path = .ok after) :
    ∃ place, disk.place path = .ok (some place) ∧ place.name.utf8ByteSize ≤ nameLimit ∧
      disk.entryAt? place = none ∧ after = disk.createDirectory place := by
  unfold makeDirectory at h
  split at h
  next => simp at h
  next => simp at h
  next place hplace =>
    split at h
    next => simp at h
    next hlookup =>
      have hshort : place.name.utf8ByteSize ≤ nameLimit := by
        rcases Nat.lt_or_ge nameLimit place.name.utf8ByteSize with hlong | hshort
        · simp [lookup_of_long hlong] at hlookup
        · exact hshort
      rw [lookup_of_short hshort] at hlookup
      refine ⟨place, hplace, hshort, ?_, (Except.ok.inj h).symm⟩
      cases hentry : disk.entryAt? place with
      | none => rfl
      | some entry => simp [hentry] at hlookup
    next => simp at h

theorem addsDirectories_ensureDirectory (hdisk : disk.Sound) (path : Path) :
    AddsDirectories disk (disk.ensureDirectory path).2 := by
  unfold ensureDirectory
  split
  next made hmade =>
    obtain ⟨place, hplace, -, hnone, rfl⟩ := exists_place_of_makeDirectory hmade
    obtain ⟨-, -, -, hfollow⟩ := exists_follow_of_place hplace
    exact addsDirectories_createDirectory hdisk (hdisk.follow_lt hdisk.top_lt hfollow) hnone
  next => exact .refl hdisk

/-- Making directories makes nothing else, also when it fails halfway; if it succeeds, the last that
was done is to make sure of the directory itself. -/
theorem addsDirectories_makeDirectories (hdisk : disk.Sound) (path : Path) :
    AddsDirectories disk (disk.makeDirectories path).2 ∧
      ((disk.makeDirectories path).1 = .ok () → ∃ near, AddsDirectories disk near ∧
        near.ensureDirectory path = disk.makeDirectories path) := by
  fun_induction makeDirectories disk path with
  | case1 disk path made hensure hparent =>
    have hmade := addsDirectories_ensureDirectory hdisk path
    rw [hensure] at hmade
    exact ⟨hmade, nofun⟩
  | case2 disk path made hensure above hparent middle habove ih =>
    have hmade := addsDirectories_ensureDirectory hdisk path
    rw [hensure] at hmade
    have hmiddle := (ih hmade.sound).1
    rw [habove] at hmiddle
    have hlast := addsDirectories_ensureDirectory hmiddle.sound path
    exact ⟨(hmade.trans hmiddle).trans hlast, fun _ => ⟨middle, hmade.trans hmiddle, rfl⟩⟩
  | case3 disk path made hensure above hparent failure middle habove ih =>
    have hmade := addsDirectories_ensureDirectory hdisk path
    rw [hensure] at hmade
    have hmiddle := (ih hmade.sound).1
    rw [habove] at hmiddle
    exact ⟨hmade.trans hmiddle, nofun⟩
  | case4 disk path hensure =>
    exact ⟨addsDirectories_ensureDirectory hdisk path, fun _ => ⟨disk, .refl hdisk, rfl⟩⟩

theorem exists_segments_child (path : Path) (name : String) :
    ∃ above, path.child name = ⟨above ++ [name]⟩ := by
  unfold Path.child Path.join
  rw [isAbsolute_singleton, if_neg Bool.false_ne_true]
  split
  · exact ⟨_, rfl⟩
  · exact ⟨_, rfl⟩

/-- The place of a name below a path is what the path leads to. -/
theorem names_of_place {name : String} (hname : IsName name)
    (h : disk.place (path.child name) = .ok (some place)) :
    disk.Names (path.child name) place := by
  obtain ⟨above, hchild⟩ := exists_segments_child path name
  rw [hchild] at h ⊢
  obtain ⟨hallowed, hlast, hisName, hfollow⟩ := exists_follow_of_place h
  rw [withoutSlashes_append hname.ne_empty] at hlast hfollow
  rw [List.getLast?_concat, Option.some.injEq] at hlast
  rw [List.dropLast_concat] at hfollow
  exact ⟨hallowed, hisName, above, by rw [hlast], hfollow⟩

/-- A directory that has been made below a path is there. -/
theorem isDirectory_of_makeDirectories (hdisk : disk.Sound) {name : String} (hname : IsName name)
    (h : disk.makeDirectories (path.child name) = (.ok (), after)) :
    after.isDirectory (path.child name) = true := by
  obtain ⟨near, hnear, hensure⟩ :=
    (addsDirectories_makeDirectories hdisk (path.child name)).2 (by rw [h])
  rw [h] at hensure
  unfold ensureDirectory at hensure
  split at hensure
  next made hmade =>
    obtain ⟨place, hplace, hshort, hnone, rfl⟩ := exists_place_of_makeDirectory hmade
    have hnames := names_of_place hname hplace
    have hlt := directory_lt_of_names hnames hnear.sound
    obtain rfl := congrArg Prod.snd hensure
    have hentry : (near.createDirectory place).entryAt? place
        = some (.directory near.directories.size) := by
      rw [entryAt?_createDirectory hlt, if_pos rfl]
    exact isDirectory_of_names ((grows_createDirectory hlt hnone).names hnear.sound hnames) hentry
      hshort
  next =>
    split at hensure
    next hdirectory =>
      obtain rfl := congrArg Prod.snd hensure
      exact hdirectory
    next => simp at hensure

end CommitLog.Disk
