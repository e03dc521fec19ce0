import CommitLog.Proofs.Disk.Names
import CommitLog.Proofs.Lookup

/-!
# What an operation leaves alone

Nothing that a log does takes a name away, and what it does at one place says nothing about any
other. `Keeps` collects that for the places of a set: what stands there, and the bytes of the files
there, are as before, and every path leads where it led. It holds of writing to a file, of making a
file and of making a directory, and of everything that is done in several such steps.
-/

namespace CommitLog.Disk

variable {disk after last : Disk} {path : Path} {place other : Place} {entry : Entry}
  {here number : Nat} {name : String} {bytes : Bytes} {kept fewer : Place → Prop}

/-- No name is gone, and every directory is where it was. -/
structure Grows (disk after : Disk) : Prop where
  directories_le : disk.directories.size ≤ after.directories.size
  above : ∀ here, here < disk.directories.size →
    (after.directory here).above = (disk.directory here).above
  entryAt?_some : ∀ place entry, disk.entryAt? place = some entry →
    after.entryAt? place = some entry

namespace Grows

theorem refl (disk : Disk) : Grows disk disk where
  directories_le := Nat.le_refl _
  above _ _ := rfl
  entryAt?_some _ _ h := h

theorem trans (h : Grows disk after) (h' : Grows after last) : Grows disk last where
  directories_le := Nat.le_trans h.directories_le h'.directories_le
  above here hhere := by
    rw [h'.above here (Nat.lt_of_lt_of_le hhere h.directories_le), h.above here hhere]
  entryAt?_some place entry he := h'.entryAt?_some place entry (h.entryAt?_some place entry he)

theorem step (h : Grows disk after) (hhere : here < disk.directories.size)
    {segment : String} (hstep : disk.step here segment = .ok entry) :
    after.step here segment = .ok entry := by
  unfold Disk.step at hstep ⊢
  split at hstep
  next hstays => rw [if_pos hstays, ← hstep]
  next hstays =>
    rw [if_neg hstays]
    split at hstep
    next hup => rw [if_pos hup, h.above here hhere, ← hstep]
    next hup =>
      rw [if_neg hup]
      unfold lookup at hstep ⊢
      split at hstep
      next => simp at hstep
      next hshort =>
        rw [if_neg hshort]
        split at hstep
        next => simp at hstep
        next found hfound =>
          have hkept := h.entryAt?_some ⟨here, segment⟩ found hfound
          unfold entryAt? at hkept
          rw [hkept]
          exact hstep

/-- Segments lead where they led. -/
theorem follow (h : Grows disk after) (hdisk : disk.Sound) {above : List String}
    (hhere : here < disk.directories.size)
    (hfollow : disk.follow (.directory here) above = .ok entry) :
    after.follow (.directory here) above = .ok entry := by
  induction above generalizing here with
  | nil => exact hfollow
  | cons segment above ih =>
    rw [Disk.follow] at hfollow ⊢
    cases hstep : disk.step here segment with
    | error failure => simp [hstep] at hfollow
    | ok entry =>
      rw [h.step hhere hstep]
      rw [hstep] at hfollow
      cases entry with
      | directory next => exact ih (hdisk.step_lt hhere hstep) hfollow
      | file number =>
        cases above with
        | nil => exact hfollow
        | cons => simp [Disk.follow] at hfollow
      | device =>
        cases above with
        | nil => exact hfollow
        | cons => simp [Disk.follow] at hfollow

/-- A path leads to what it led to. -/
theorem resolve (h : Grows disk after) (hdisk : disk.Sound)
    (hresolve : disk.resolve path = .ok entry) : after.resolve path = .ok entry := by
  rw [Disk.resolve] at hresolve ⊢
  split at hresolve
  next => simp at hresolve
  next => exact h.follow hdisk hdisk.top_lt hresolve

/-- A path leads to the place it led to. -/
theorem names (h : Grows disk after) (hdisk : disk.Sound) (hnames : disk.Names path place) :
    after.Names path place := by
  obtain ⟨above, hsegments, hfollow⟩ := hnames.follows
  exact ⟨hnames.allowed, hnames.isName, above, hsegments, h.follow hdisk hdisk.top_lt hfollow⟩

end Grows

/-- Places that an operation has nothing to do with are as before, and no name is gone. -/
structure Keeps (disk after : Disk) (kept : Place → Prop) : Prop where
  directories_le : disk.directories.size ≤ after.directories.size
  above : ∀ here, here < disk.directories.size →
    (after.directory here).above = (disk.directory here).above
  entryAt?_some : ∀ place entry, disk.entryAt? place = some entry →
    after.entryAt? place = some entry
  entryAt?_kept : ∀ place, kept place → after.entryAt? place = disk.entryAt? place
  content_kept : ∀ place number, kept place → disk.entryAt? place = some (.file number) →
    after.content number = disk.content number
  sound : after.Sound
  reliable : after.Reliable

namespace Keeps

theorem grows (h : Keeps disk after kept) : Grows disk after :=
  ⟨h.directories_le, h.above, h.entryAt?_some⟩

theorem refl (hsound : disk.Sound) (hreliable : disk.Reliable) (kept : Place → Prop) :
    Keeps disk disk kept where
  directories_le := (Grows.refl disk).directories_le
  above := (Grows.refl disk).above
  entryAt?_some := (Grows.refl disk).entryAt?_some
  entryAt?_kept _ _ := rfl
  content_kept _ _ _ _ := rfl
  sound := hsound
  reliable := hreliable

theorem trans (h : Keeps disk after kept) (h' : Keeps after last kept) : Keeps disk last kept where
  directories_le := (h.grows.trans h'.grows).directories_le
  above := (h.grows.trans h'.grows).above
  entryAt?_some := (h.grows.trans h'.grows).entryAt?_some
  entryAt?_kept place hp := by rw [h'.entryAt?_kept place hp, h.entryAt?_kept place hp]
  content_kept place number hp he := by
    rw [h'.content_kept place number hp (h.entryAt?_some _ _ he), h.content_kept place number hp he]
  sound := h'.sound
  reliable := h'.reliable

theorem mono (h : Keeps disk after kept) (hfewer : ∀ place, fewer place → kept place) :
    Keeps disk after fewer where
  directories_le := h.directories_le
  above := h.above
  entryAt?_some := h.entryAt?_some
  entryAt?_kept place hp := h.entryAt?_kept place (hfewer place hp)
  content_kept place number hp := h.content_kept place number (hfewer place hp)
  sound := h.sound
  reliable := h.reliable

/-- Segments lead where they led. -/
theorem follow (h : Keeps disk after kept) (hdisk : disk.Sound) {above : List String}
    (hhere : here < disk.directories.size)
    (hfollow : disk.follow (.directory here) above = .ok entry) :
    after.follow (.directory here) above = .ok entry := h.grows.follow hdisk hhere hfollow

/-- A path leads to what it led to. -/
theorem resolve (h : Keeps disk after kept) (hdisk : disk.Sound)
    (hresolve : disk.resolve path = .ok entry) : after.resolve path = .ok entry :=
  h.grows.resolve hdisk hresolve

/-- A path leads to the place it led to. -/
theorem names (h : Keeps disk after kept) (hdisk : disk.Sound) (hnames : disk.Names path place) :
    after.Names path place := h.grows.names hdisk hnames

end Keeps

/-- A new disk has nothing on it. -/
theorem entryAt?_new (place : Place) : ({} : Disk).entryAt? place = none := by
  obtain ⟨here, name⟩ := place
  cases here <;> rfl

theorem sound_new : ({} : Disk).Sound := by
  refine ⟨Nat.zero_lt_one, ?_, ?_, ?_, ?_, ?_⟩
  · intro here hhere
    obtain rfl : here = 0 := Nat.lt_one_iff.1 hhere
    exact hhere
  · intro place number he
    simp [entryAt?_new] at he
  · intro place number he
    simp [entryAt?_new] at he
  · intro place other number he
    simp [entryAt?_new] at he
  · intro number
    rw [content_of_size_le (Nat.zero_le _)]
    exact Nat.zero_le _

/-! ## Writing to a file -/

theorem directory_congr (h : after.directories = disk.directories) (here : Nat) :
    after.directory here = disk.directory here := by
  unfold directory
  rw [h]

/-- What stands at a place is a matter of the directories alone. -/
theorem entryAt?_congr (h : after.directories = disk.directories) (place : Place) :
    after.entryAt? place = disk.entryAt? place := by
  unfold entryAt?
  rw [directory_congr h]

theorem grows_of_directories (h : after.directories = disk.directories) : Grows disk after where
  directories_le := Nat.le_of_eq (congrArg Array.size h.symm)
  above here _ := by rw [directory_congr h]
  entryAt?_some place entry he := by rw [entryAt?_congr h, he]

theorem sound_of_directories (hdisk : disk.Sound)
    (hdirectories : after.directories = disk.directories)
    (hsize : after.contents.size = disk.contents.size)
    (hlength : ∀ number, (after.content number).length ≤ maxFileLength) : after.Sound where
  top_lt := by rw [hdirectories]; exact hdisk.top_lt
  above_lt here hhere := by
    rw [hdirectories] at hhere ⊢
    rw [directory_congr hdirectories]
    exact hdisk.above_lt here hhere
  directory_lt place reached he := by
    rw [entryAt?_congr hdirectories] at he
    rw [hdirectories]
    exact hdisk.directory_lt place reached he
  file_lt place found he := by
    rw [entryAt?_congr hdirectories] at he
    rw [hsize]
    exact hdisk.file_lt place found he
  file_unique place other found he ho := by
    rw [entryAt?_congr hdirectories] at he ho
    exact hdisk.file_unique place other found he ho
  length_le := hlength

theorem Edits.entryAt? (h : Edits disk after number bytes) (place : Place) :
    after.entryAt? place = disk.entryAt? place := entryAt?_congr h.directories place

theorem Edits.sound (h : Edits disk after number bytes) (hdisk : disk.Sound)
    (hbytes : bytes.length ≤ maxFileLength) : after.Sound := by
  refine sound_of_directories hdisk h.directories h.size fun found => ?_
  by_cases hfound : found = number
  · rw [hfound, h.content]
    exact hbytes
  · rw [h.content_of_ne found hfound]
    exact hdisk.length_le found

/-- Writing to the file at a place leaves all other places alone. -/
theorem Edits.keeps (h : Edits disk after number bytes) (hdisk : disk.Sound)
    (hbytes : bytes.length ≤ maxFileLength) (hplace : disk.entryAt? place = some (.file number)) :
    Keeps disk after (· ≠ place) where
  directories_le := (grows_of_directories h.directories).directories_le
  above := (grows_of_directories h.directories).above
  entryAt?_some := (grows_of_directories h.directories).entryAt?_some
  entryAt?_kept other _ := h.entryAt? other
  content_kept other found hne he := by
    refine h.content_of_ne found ?_
    rintro rfl
    exact hne (hdisk.file_unique other place found he hplace)
  sound := h.sound hdisk hbytes
  reliable := h.reliable

/-! ## Making files and directories -/

theorem directory_modifyEntries (change : List (String × Entry) → List (String × Entry))
    (hnumber : number < disk.directories.size) (here : Nat) :
    (disk.modifyEntries number change).directory here
      = if here = number then
          { disk.directory here with entries := change (disk.directory here).entries }
        else disk.directory here := by
  by_cases h : here = number
  · subst h
    simp [modifyEntries, directory, Array.getElem_modify, hnumber]
  · simp [modifyEntries, directory, Array.getElem?_modify, h, Ne.symm h]

theorem size_link (place : Place) (entry : Entry) :
    (disk.link place entry).directories.size = disk.directories.size := by
  simp [link, unlink, modifyEntries]

theorem above_link (hplace : place.directory < disk.directories.size) (entry : Entry) (here : Nat) :
    ((disk.link place entry).directory here).above = (disk.directory here).above := by
  have hsize : place.directory < (disk.unlink place).directories.size := by
    simpa [unlink, modifyEntries] using hplace
  unfold link
  rw [directory_modifyEntries _ hsize]
  split
  · show ((disk.unlink place).directory here).above = _
    unfold unlink
    rw [directory_modifyEntries _ hplace]
    split <;> rfl
  · unfold unlink
    rw [directory_modifyEntries _ hplace]
    split <;> rfl

/-- A link is seen at its place and nowhere else. -/
theorem entryAt?_link (hplace : place.directory < disk.directories.size) (entry : Entry)
    (other : Place) :
    (disk.link place entry).entryAt? other
      = if other = place then some entry else disk.entryAt? other := by
  have hsize : place.directory < (disk.unlink place).directories.size := by
    simpa [unlink, modifyEntries] using hplace
  unfold Disk.entryAt? link
  rw [directory_modifyEntries _ hsize]
  obtain ⟨here, name⟩ := place
  obtain ⟨there, called⟩ := other
  simp only [Place.mk.injEq]
  by_cases hdirectory : there = here
  · subst hdirectory
    rw [if_pos rfl, unlink, directory_modifyEntries _ hplace, if_pos rfl]
    by_cases hname : called = name
    · simp [hname]
    · have hdiffer : (called == name) = false := by simpa using hname
      simp [hname, hdiffer, List.lookup_cons, lookup_filter_ne (Ne.symm hname)]
  · rw [if_neg hdirectory, unlink, directory_modifyEntries _ hplace, if_neg hdirectory]
    simp [hdirectory]

/-- Linking a name that stood for nothing takes nothing away. -/
theorem grows_link (entry : Entry) (hplace : place.directory < disk.directories.size)
    (hnone : disk.entryAt? place = none) : Grows disk (disk.link place entry) where
  directories_le := Nat.le_of_eq (size_link place entry).symm
  above here _ := above_link hplace entry here
  entryAt?_some other found he := by
    rw [entryAt?_link hplace, if_neg, he]
    rintro rfl
    simp [hnone] at he

/-- Linking a name to something that is there and that no other name leads to. -/
theorem sound_link (entry : Entry) (hdisk : disk.Sound)
    (hplace : place.directory < disk.directories.size)
    (hdirectory : ∀ number, entry = .directory number → number < disk.directories.size)
    (hfile : ∀ number, entry = .file number → number < disk.contents.size ∧
      ∀ other, disk.entryAt? other ≠ some (.file number)) : (disk.link place entry).Sound := by
  refine ⟨?_, ?_, ?_, ?_, ?_, hdisk.length_le⟩
  · rw [size_link]
    exact hdisk.top_lt
  · intro here hhere
    rw [size_link] at hhere ⊢
    rw [above_link hplace]
    exact hdisk.above_lt here hhere
  · intro other number he
    rw [entryAt?_link hplace] at he
    rw [size_link]
    split at he
    · exact hdirectory number (Option.some.inj he)
    · exact hdisk.directory_lt other number he
  · intro other number he
    rw [entryAt?_link hplace] at he
    split at he
    · exact (hfile number (Option.some.inj he)).1
    · exact hdisk.file_lt other number he
  · intro first second number h₁ h₂
    rw [entryAt?_link hplace] at h₁ h₂
    split at h₁
    next hfirst =>
      split at h₂
      next hsecond => rw [hfirst, hsecond]
      next => exact absurd h₂ ((hfile number (Option.some.inj h₁)).2 second)
    next =>
      split at h₂
      next => exact absurd h₁ ((hfile number (Option.some.inj h₂)).2 first)
      next => exact hdisk.file_unique first second number h₁ h₂

theorem content_push (disk : Disk) (number : Nat) :
    ({ disk with contents := disk.contents.push #[] } : Disk).content number
      = disk.content number := by
  simp only [content, Array.getD_eq_getD_getElem?, Array.getElem?_push]
  split
  next h => simp [h]
  next => rfl

theorem content_createFile (place : Place) (number : Nat) :
    (disk.createFile place).content number = disk.content number := content_push disk number

theorem entryAt?_createFile (hplace : place.directory < disk.directories.size) (other : Place) :
    (disk.createFile place).entryAt? other
      = if other = place then some (.file disk.contents.size) else disk.entryAt? other := by
  have hsize : place.directory
      < ({ disk with contents := disk.contents.push #[] } : Disk).directories.size := hplace
  exact entryAt?_link hsize _ other

theorem grows_createFile (hplace : place.directory < disk.directories.size)
    (hnone : disk.entryAt? place = none) : Grows disk (disk.createFile place) :=
  have hgrows : Grows ({ disk with contents := disk.contents.push #[] } : Disk)
      (disk.createFile place) := grows_link _ hplace hnone
  ⟨hgrows.directories_le, hgrows.above, hgrows.entryAt?_some⟩

theorem sound_createFile (hdisk : disk.Sound)
    (hplace : place.directory < disk.directories.size) : (disk.createFile place).Sound := by
  have hsize : (disk.contents.push #[]).size = disk.contents.size + 1 := Array.size_push ..
  have hgrown : ({ disk with contents := disk.contents.push #[] } : Disk).Sound := by
    refine ⟨hdisk.top_lt, hdisk.above_lt, hdisk.directory_lt, ?_, hdisk.file_unique, ?_⟩
    · intro other number he
      have hlt := hdisk.file_lt other number he
      show number < (disk.contents.push #[]).size
      omega
    · intro number
      rw [content_push]
      exact hdisk.length_le number
  refine sound_link (.file disk.contents.size) hgrown hplace (by simp) ?_
  intro number hnumber
  obtain rfl := Entry.file.inj hnumber
  refine ⟨by show disk.contents.size < (disk.contents.push #[]).size; omega, ?_⟩
  intro other he
  exact absurd (hdisk.file_lt other _ he) (Nat.lt_irrefl _)

/-- Making a file leaves all other places alone. -/
theorem keeps_createFile (hdisk : disk.Sound) (hreliable : disk.Reliable)
    (hplace : place.directory < disk.directories.size) (hnone : disk.entryAt? place = none) :
    Keeps disk (disk.createFile place) (· ≠ place) where
  directories_le := (grows_createFile hplace hnone).directories_le
  above := (grows_createFile hplace hnone).above
  entryAt?_some := (grows_createFile hplace hnone).entryAt?_some
  entryAt?_kept other hne := by rw [entryAt?_createFile hplace, if_neg hne]
  content_kept _ number _ _ := content_createFile place number
  sound := sound_createFile hdisk hplace
  reliable := hreliable

theorem directory_push (disk : Disk) (directory : Directory) (here : Nat) :
    ({ disk with directories := disk.directories.push directory } : Disk).directory here
      = if here = disk.directories.size then directory else disk.directory here := by
  simp only [Disk.directory, Array.getD_eq_getD_getElem?, Array.getElem?_push]
  split <;> rfl

theorem entries_default : (default : Directory).entries = [] := rfl

/-- A directory that is about to be made has nothing in it. -/
theorem entryAt?_push (disk : Disk) (above : Nat) (other : Place) :
    ({ disk with directories := disk.directories.push { above } } : Disk).entryAt? other
      = disk.entryAt? other := by
  unfold entryAt?
  rw [directory_push]
  split
  next h => simp [h, directory, entries_default]
  next => rfl

theorem entryAt?_createDirectory (hplace : place.directory < disk.directories.size)
    (other : Place) :
    (disk.createDirectory place).entryAt? other
      = if other = place then some (.directory disk.directories.size) else disk.entryAt? other := by
  have hsize : place.directory < (disk.directories.push { above := place.directory }).size := by
    rw [Array.size_push]
    omega
  unfold createDirectory
  rw [entryAt?_link hsize, entryAt?_push]

theorem entryAt?_of_size_le (h : disk.directories.size ≤ place.directory) :
    disk.entryAt? place = none := by
  simp [entryAt?, directory, Array.getElem?_eq_none h, entries_default]

/-- One more directory, which nothing leads to yet. -/
theorem sound_push (hdisk : disk.Sound) {above : Nat} (habove : above < disk.directories.size) :
    ({ disk with directories := disk.directories.push { above } } : Disk).Sound := by
  have hsize : (disk.directories.push { above }).size
      = disk.directories.size + 1 := Array.size_push ..
  refine ⟨?_, ?_, ?_, ?_, ?_, hdisk.length_le⟩
  · show top < (disk.directories.push { above }).size
    have := hdisk.top_lt
    omega
  · intro here hhere
    replace hhere : here < (disk.directories.push { above }).size := hhere
    show _ < (disk.directories.push { above }).size
    rw [directory_push]
    split
    next =>
      show above < _
      omega
    next hne =>
      have := hdisk.above_lt here (by omega)
      omega
  · intro other number he
    rw [entryAt?_push] at he
    have := hdisk.directory_lt other number he
    show number < (disk.directories.push { above }).size
    omega
  · intro other number he
    rw [entryAt?_push] at he
    exact hdisk.file_lt other number he
  · intro first second number h₁ h₂
    rw [entryAt?_push] at h₁ h₂
    exact hdisk.file_unique first second number h₁ h₂

theorem grows_createDirectory (hplace : place.directory < disk.directories.size)
    (hnone : disk.entryAt? place = none) : Grows disk (disk.createDirectory place) := by
  have hsize : (disk.directories.push { above := place.directory }).size
      = disk.directories.size + 1 := Array.size_push ..
  -- first there is one more directory, then the link that leads to it
  have hlink : Grows
      ({ disk with directories := disk.directories.push { above := place.directory } } : Disk)
      (disk.createDirectory place) :=
    grows_link _
      (by show place.directory < (disk.directories.push { above := place.directory }).size; omega)
      (by rw [entryAt?_push]; exact hnone)
  refine ⟨?_, ?_, ?_⟩
  · have hle : (disk.directories.push { above := place.directory }).size
      ≤ (disk.createDirectory place).directories.size := hlink.directories_le
    omega
  · intro here hhere
    have habove := hlink.above here (by
      show here < (disk.directories.push { above := place.directory }).size
      omega)
    rw [directory_push, if_neg (by omega)] at habove
    exact habove
  · intro other entry he
    exact hlink.entryAt?_some other entry (by rw [entryAt?_push, he])

theorem sound_createDirectory (hdisk : disk.Sound)
    (hplace : place.directory < disk.directories.size) : (disk.createDirectory place).Sound := by
  have hsize : (disk.directories.push { above := place.directory }).size
      = disk.directories.size + 1 := Array.size_push ..
  refine sound_link (.directory disk.directories.size) (sound_push hdisk hplace)
    (by show place.directory < (disk.directories.push { above := place.directory }).size; omega)
    ?_ (by simp)
  intro number hnumber
  obtain rfl := Entry.directory.inj hnumber
  show disk.directories.size < (disk.directories.push { above := place.directory }).size
  omega

/-- Making a directory leaves all other places alone. -/
theorem keeps_createDirectory (hdisk : disk.Sound) (hreliable : disk.Reliable)
    (hplace : place.directory < disk.directories.size) (hnone : disk.entryAt? place = none) :
    Keeps disk (disk.createDirectory place) (· ≠ place) where
  directories_le := (grows_createDirectory hplace hnone).directories_le
  above := (grows_createDirectory hplace hnone).above
  entryAt?_some := (grows_createDirectory hplace hnone).entryAt?_some
  entryAt?_kept other hne := by rw [entryAt?_createDirectory hplace, if_neg hne]
  content_kept _ _ _ _ := rfl
  sound := sound_createDirectory hdisk hplace
  reliable := hreliable

end CommitLog.Disk
