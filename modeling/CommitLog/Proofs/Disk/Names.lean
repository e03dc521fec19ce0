import CommitLog.Disk

/-!
# Open files and names on a disk

An operation on an open file changes the bytes of that file and nothing else. `Edits` says so for
all of them at once: after any of them, the one file holds known bytes, every other file holds what
it held, and no name has moved. Faults that are to come are part of a disk; on a `Reliable` one
none of them is a failure.

A path that is followed from directory to directory comes down to one place: a name in a directory.
`Names` says that it does, and everything that is done through the path is then told by what the
name stands for there (`entryAt?`).

A disk that logs work on is `Sound`: numbers lead to what is there, and no two names to one file.
What somebody does on such a disk leaves the places alone that are none of his business: `Keeps`
says so for all operations at once, and whatever was known of a place that is kept stays true.
-/

namespace CommitLog.Disk

section OpenFiles

variable {disk after last : Disk} {number : Nat} {bytes : Bytes}

/-- Nothing is to go wrong with operations on open files. -/
def Reliable (disk : Disk) : Prop := ∀ fault ∈ disk.faults, fault = none

/-- The disk after a change to one file, which holds the given bytes now. -/
structure Edits (disk after : Disk) (number : Nat) (bytes : Bytes) : Prop where
  directories : after.directories = disk.directories
  size : after.contents.size = disk.contents.size
  content : after.content number = bytes
  content_of_ne : ∀ other, other ≠ number → after.content other = disk.content other
  reliable : after.Reliable

theorem Edits.trans {later : Bytes} (h : Edits disk after number bytes)
    (h' : Edits after last number later) : Edits disk last number later where
  directories := by rw [h'.directories, h.directories]
  size := by rw [h'.size, h.size]
  content := h'.content
  content_of_ne other hne := by rw [h'.content_of_ne other hne, h.content_of_ne other hne]
  reliable := h'.reliable

/-! ## Bytes of files -/

theorem content_of_size_le (h : disk.contents.size ≤ number) : disk.content number = [] := by
  simp [content, Array.getElem?_eq_none h]

theorem content_modifyContent (change : Array UInt8 → Array UInt8)
    (h : number < disk.contents.size) :
    (disk.modifyContent number change).content number
      = (change (disk.content number).toArray).toList := by
  simp [content, modifyContent, h, Array.getElem_modify]

theorem content_modifyContent_of_ne (change : Array UInt8 → Array UInt8) {other : Nat}
    (h : other ≠ number) :
    (disk.modifyContent number change).content other = disk.content other := by
  simp [content, modifyContent, Array.getElem?_modify, Ne.symm h]

theorem length_content (number : Nat) : (disk.content number).length = disk.length number := by
  simp [content, length]

/-! ## Operations -/

theorem nextFault_of_reliable (h : disk.Reliable) :
    disk.nextFault = (none, { disk with faults := disk.faults.tail }) := by
  obtain ⟨directories, contents, faults⟩ := disk
  cases faults with
  | nil => rfl
  | cons fault later =>
    obtain rfl := h fault List.mem_cons_self
    rfl

theorem Reliable.tail (h : disk.Reliable) : ∀ fault ∈ disk.faults.tail, fault = none :=
  fun fault hf => h fault (List.mem_of_mem_tail hf)

/-- Appending to a file that has room puts the bytes behind what was there. -/
theorem append_of_room (hdisk : disk.Reliable) (hnumber : number < disk.contents.size)
    (hroom : (disk.content number).length + bytes.length ≤ maxFileLength) :
    ∃ after, disk.append (.file number) bytes = (.ok (), after) ∧
      Edits disk after number (disk.content number ++ bytes) := by
  rw [length_content] at hroom
  refine ⟨({ disk with faults := disk.faults.tail } : Disk).appendContent number bytes, ?_, ?_⟩
  · unfold append
    rw [nextFault_of_reliable hdisk]
    exact if_neg (Nat.not_lt.2 hroom)
  · constructor
    · rfl
    · exact Array.size_modify
    · exact (content_modifyContent _ hnumber).trans (by simp [content])
    · intro other hne
      exact content_modifyContent_of_ne _ hne
    · exact hdisk.tail

/-- Appending to a file that has no room changes nothing. -/
theorem append_of_no_room (hdisk : disk.Reliable)
    (hroom : maxFileLength < (disk.content number).length + bytes.length) :
    ∃ after, disk.append (.file number) bytes = (.error .fileTooLarge, after) ∧
      Edits disk after number (disk.content number) := by
  rw [length_content] at hroom
  refine ⟨{ disk with faults := disk.faults.tail }, ?_, ⟨rfl, rfl, rfl, fun _ _ => rfl, hdisk.tail⟩⟩
  unfold append
  rw [nextFault_of_reliable hdisk]
  exact if_pos hroom

theorem edits_setContent (hdisk : disk.Reliable) (hnumber : number < disk.contents.size)
    (bytes : Bytes) : Edits disk (disk.setContent number bytes) number bytes where
  directories := rfl
  size := Array.size_modify
  content := content_modifyContent _ hnumber
  content_of_ne _ hne := content_modifyContent_of_ne _ hne
  reliable := hdisk

theorem sync_of_reliable (hdisk : disk.Reliable) (number : Nat) :
    ∃ after, disk.sync (.file number) = (.ok (), after) ∧
      Edits disk after number (disk.content number) := by
  refine ⟨{ disk with faults := disk.faults.tail }, ?_, ⟨rfl, rfl, rfl, fun _ _ => rfl, hdisk.tail⟩⟩
  unfold sync
  rw [nextFault_of_reliable hdisk]

/-- Giving a file a length that it exceeds cuts it. -/
theorem setLength_of_reliable (hdisk : disk.Reliable) (hnumber : number < disk.contents.size)
    {length : Nat} (hlength : length ≤ (disk.content number).length) :
    ∃ after, disk.setLength (.file number) length = (.ok (), after) ∧
      Edits disk after number ((disk.content number).take length) := by
  refine ⟨({ disk with faults := disk.faults.tail } : Disk).setContent number
    (resized (disk.content number) length), ?_, ?_⟩
  · unfold setLength
    rw [nextFault_of_reliable hdisk]
    rfl
  · constructor
    · rfl
    · exact Array.size_modify
    · refine (content_modifyContent _ hnumber).trans ?_
      unfold resized
      rw [Nat.sub_eq_zero_of_le hlength]
      simp
    · intro other hne
      exact content_modifyContent_of_ne _ hne
    · exact hdisk.tail

end OpenFiles

/-! ## Places -/

variable {disk after last : Disk} {path : Path} {place other : Place} {entry : Entry}
  {here number : Nat} {name : String}

/-- What stands at a place. -/
def entryAt? (disk : Disk) (place : Place) : Option Entry :=
  (disk.directory place.directory).entries.lookup place.name

/-- A segment of a path that is looked up in a directory. -/
structure IsName (name : String) : Prop where
  not_stays : Path.stays name = false
  ne_upward : name ≠ Path.upward

/-- A path leads to a place, whatever stands there. -/
structure Names (disk : Disk) (path : Path) (place : Place) : Prop where
  allowed : refusal? path = none
  isName : IsName place.name
  follows : ∃ above, path.segments = above ++ [place.name] ∧
    disk.follow (.directory top) above = .ok (.directory place.directory)

/-- Numbers lead to what is there, and no two names to one file. -/
structure Sound (disk : Disk) : Prop where
  top_lt : top < disk.directories.size
  above_lt : ∀ here, here < disk.directories.size →
    (disk.directory here).above < disk.directories.size
  directory_lt : ∀ place number, disk.entryAt? place = some (.directory number) →
    number < disk.directories.size
  file_lt : ∀ place number, disk.entryAt? place = some (.file number) →
    number < disk.contents.size
  file_unique : ∀ place other number, disk.entryAt? place = some (.file number) →
    disk.entryAt? other = some (.file number) → place = other
  length_le : ∀ number, (disk.content number).length ≤ maxFileLength

/-! ## Following segments -/

theorem follow_append (above later : List String) (entry : Entry) :
    disk.follow entry (above ++ later)
      = (disk.follow entry above).bind fun reached => disk.follow reached later := by
  induction above generalizing entry with
  | nil => rfl
  | cons segment above ih =>
    cases entry with
    | directory here =>
      simp only [List.cons_append, follow]
      cases disk.step here segment with
      | error failure => rfl
      | ok reached => exact ih reached
    | file number => rfl
    | device => rfl

theorem follow_singleton (here : Nat) (segment : String) :
    disk.follow (.directory here) [segment] = disk.step here segment := by
  simp only [follow]
  cases disk.step here segment <;> rfl

theorem step_of_isName (h : IsName name) (here : Nat) :
    disk.step here name = disk.lookup here name := by
  unfold step
  rw [if_neg (by simp [h.not_stays]), if_neg h.ne_upward]

/-- Looking up a name that is not too long says what stands at the place. -/
theorem lookup_of_short (hshort : place.name.utf8ByteSize ≤ nameLimit) :
    disk.lookup place.directory place.name
      = match disk.entryAt? place with
        | some entry => .ok entry
        | none => .error .notFound := by
  unfold lookup
  rw [if_neg (Nat.not_lt.2 hshort), entryAt?]
  cases List.lookup place.name (disk.directory place.directory).entries <;> rfl

theorem lookup_of_long (hlong : nameLimit < name.utf8ByteSize) (here : Nat) :
    disk.lookup here name = .error .nameTooLong := if_pos hlong

/-- Where a path leads is looked up at its place. -/
theorem resolve_of_names (h : disk.Names path place) :
    disk.resolve path = disk.lookup place.directory place.name := by
  obtain ⟨above, hsegments, hfollow⟩ := h.follows
  unfold resolve
  rw [h.allowed, hsegments, follow_append, hfollow]
  simp only [Except.bind, follow_singleton]
  exact step_of_isName h.isName place.directory

theorem follow_of_resolve (h : disk.resolve path = .ok entry) :
    disk.follow (.directory top) path.segments = .ok entry := by
  unfold resolve at h
  split at h
  next => simp at h
  next => exact h

theorem IsName.ne_empty (h : IsName name) : name ≠ "" := by
  rintro rfl
  exact absurd h.not_stays (by decide)

theorem withoutSlashes_append (h : name ≠ "") (above : List String) :
    Path.withoutSlashes ⟨above ++ [name]⟩ = above ++ [name] := by
  simp [Path.withoutSlashes, h]

theorem place_of_names (h : disk.Names path place) : disk.place path = .ok (some place) := by
  obtain ⟨above, hsegments, hfollow⟩ := h.follows
  have hwithout : path.withoutSlashes = above ++ [place.name] := by
    have hpath : path = ⟨above ++ [place.name]⟩ := by rw [← hsegments]
    rw [hpath]
    exact withoutSlashes_append h.isName.ne_empty above
  have hstay : (Path.stays place.name || place.name == Path.upward) = false := by
    rw [h.isName.not_stays, Bool.false_or]
    exact beq_eq_false_iff_ne.2 h.isName.ne_upward
  simp only [Disk.place, hwithout, h.allowed, List.getLast?_concat, List.dropLast_concat, hfollow,
    hstay]
  rfl

theorem endsInDirectory_of_names (h : disk.Names path place) : path.endsInDirectory = false := by
  obtain ⟨above, hsegments, -⟩ := h.follows
  unfold Path.endsInDirectory
  rw [hsegments, List.getLast?_concat]
  simpa [h.isName.not_stays] using h.isName.ne_upward

theorem Sound.step_lt (hdisk : disk.Sound) (hhere : here < disk.directories.size) {segment : String}
    (h : disk.step here segment = .ok (.directory number)) : number < disk.directories.size := by
  unfold step at h
  split at h
  · obtain rfl := Entry.directory.inj (Except.ok.inj h)
    exact hhere
  · split at h
    · obtain rfl := Entry.directory.inj (Except.ok.inj h)
      exact hdisk.above_lt here hhere
    · refine hdisk.directory_lt ⟨here, segment⟩ number ?_
      unfold lookup at h
      split at h
      · simp at h
      · split at h
        · simp at h
        · next hlookup =>
          unfold entryAt?
          rw [hlookup, Except.ok.inj h]

theorem Sound.follow_lt (hdisk : disk.Sound) {above : List String} {reached : Nat}
    (hhere : here < disk.directories.size)
    (h : disk.follow (.directory here) above = .ok (.directory reached)) :
    reached < disk.directories.size := by
  induction above generalizing here with
  | nil =>
    obtain rfl := Entry.directory.inj (Except.ok.inj h)
    exact hhere
  | cons segment above ih =>
    unfold follow at h
    cases hstep : disk.step here segment with
    | error failure => simp [hstep] at h
    | ok entry =>
      rw [hstep] at h
      cases entry with
      | directory next => exact ih (hdisk.step_lt hhere hstep) h
      | file number => cases above <;> simp [follow] at h
      | device => cases above <;> simp [follow] at h

theorem directory_lt_of_names (h : disk.Names path place) (hdisk : disk.Sound) :
    place.directory < disk.directories.size := by
  obtain ⟨above, -, hfollow⟩ := h.follows
  exact hdisk.follow_lt hdisk.top_lt hfollow

theorem Names.resolve_eq_file_iff (h : disk.Names path place)
    (hshort : place.name.utf8ByteSize ≤ nameLimit) :
    disk.resolve path = .ok (.file number) ↔ disk.entryAt? place = some (.file number) := by
  rw [resolve_of_names h, lookup_of_short hshort]
  cases disk.entryAt? place with
  | none => simp
  | some entry => simp

theorem exists_entry_of_follow_file {segments : List String}
    (h : disk.follow (.directory here) segments = .ok (.file number)) :
    ∃ place, disk.entryAt? place = some (.file number) := by
  induction segments generalizing here with
  | nil => simp [follow] at h
  | cons segment later ih =>
    rw [follow] at h
    cases hstep : disk.step here segment with
    | error failure => simp [hstep] at h
    | ok entry =>
      rw [hstep] at h
      cases entry with
      | directory next => exact ih h
      | device => cases later <;> simp [follow] at h
      | file found =>
        -- a file is found by looking up a name, and nothing comes behind it
        refine ⟨⟨here, segment⟩, ?_⟩
        have hfound : found = number := by
          cases later with
          | nil => exact Entry.file.inj (Except.ok.inj h)
          | cons => simp [follow] at h
        subst hfound
        unfold step at hstep
        split at hstep
        next => simp at hstep
        next =>
          split at hstep
          next => simp at hstep
          next =>
            unfold lookup at hstep
            split at hstep
            next => simp at hstep
            next =>
              split at hstep
              next => simp at hstep
              next entry hentry => rw [entryAt?, hentry, Except.ok.inj hstep]

/-- A file that a path leads to stands at some place. -/
theorem exists_entry_of_resolve_file (h : disk.resolve path = .ok (.file number)) :
    ∃ place, disk.entryAt? place = some (.file number) :=
  exists_entry_of_follow_file (follow_of_resolve h)

/-! ## Names in a directory -/

/-- A text that ends in a slash leads where the text without it leads. -/
theorem follow_dropLast_of_slash {segments : List String} (hlast : segments.getLast? = some "")
    (h : disk.follow (.directory top) segments = .ok (.directory here)) :
    disk.follow (.directory top) segments.dropLast = .ok (.directory here) := by
  have hne : segments ≠ [] := by
    rintro rfl
    simp at hlast
  have hsplit : segments = segments.dropLast ++ [""] := by
    rw [List.getLast?_eq_some_getLast hne, Option.some.injEq] at hlast
    rw [← hlast, List.dropLast_concat_getLast hne]
  rw [hsplit, follow_append] at h
  cases hfollow : disk.follow (.directory top) segments.dropLast with
  | error failure => simp [hfollow, Except.bind] at h
  | ok reached =>
    rw [hfollow] at h
    cases reached with
    | directory number => simpa [Except.bind, follow, step, Path.stays] using h
    | file number => simp [Except.bind, follow] at h
    | device => simp [Except.bind, follow] at h

theorem isAbsolute_singleton (name : String) : Path.isAbsolute ⟨[name]⟩ = false := by
  unfold Path.isAbsolute
  split
  next h => simp at h
  next => rfl

/-- A name in the directory of a path is at its place there. -/
theorem names_child (hpath : disk.follow (.directory top) path.segments = .ok (.directory here))
    (hname : IsName name) (hallowed : refusal? (path.child name) = none) :
    disk.Names (path.child name) ⟨here, name⟩ := by
  refine ⟨hallowed, hname, ?_⟩
  unfold Path.child Path.join
  rw [isAbsolute_singleton, if_neg Bool.false_ne_true]
  split
  next hlast => exact ⟨path.segments.dropLast, rfl, follow_dropLast_of_slash hlast hpath⟩
  next => exact ⟨path.segments, rfl, hpath⟩

/-- A name in a directory that has a place itself. -/
theorem names_child_of_names (h : disk.Names path place)
    (hshort : place.name.utf8ByteSize ≤ nameLimit)
    (hentry : disk.entryAt? place = some (.directory here)) (hname : IsName name)
    (hallowed : refusal? (path.child name) = none) :
    disk.Names (path.child name) ⟨here, name⟩ := by
  have hresolve := resolve_of_names h
  rw [lookup_of_short hshort, hentry] at hresolve
  exact names_child (follow_of_resolve hresolve) hname hallowed

theorem exists_follow_of_follow_append {above : List String} {segment : String}
    (h : disk.follow (.directory top) (above ++ [segment]) = .ok entry) :
    ∃ here, disk.follow (.directory top) above = .ok (.directory here) ∧
      disk.step here segment = .ok entry := by
  rw [follow_append] at h
  cases hfollow : disk.follow (.directory top) above with
  | error failure => simp [hfollow, Except.bind] at h
  | ok reached =>
    rw [hfollow] at h
    cases reached with
    | directory here => exact ⟨here, rfl, by rw [← follow_singleton]; exact h⟩
    | file number => simp [Except.bind, follow] at h
    | device => simp [Except.bind, follow] at h

/-- What the segments of a path in a directory lead to stands at its place there. -/
theorem exists_entry_of_follow_child (hname : IsName name)
    (h : disk.follow (.directory top) (path.child name).segments = .ok entry) :
    ∃ here, disk.follow (.directory top) path.segments = .ok (.directory here) ∧
      name.utf8ByteSize ≤ nameLimit ∧ disk.entryAt? ⟨here, name⟩ = some entry := by
  have hroot : ∃ here, disk.follow (.directory top) path.segments = .ok (.directory here) ∧
      disk.step here name = .ok entry := by
    simp only [Path.child, Path.join, isAbsolute_singleton, Bool.false_eq_true, if_false] at h
    split at h
    next hlast =>
      obtain ⟨here, hfollow, hstep⟩ := exists_follow_of_follow_append h
      refine ⟨here, ?_, hstep⟩
      have hne : path.segments ≠ [] := by
        intro hempty
        simp [hempty] at hlast
      rw [List.getLast?_eq_some_getLast hne, Option.some.injEq] at hlast
      rw [← List.dropLast_concat_getLast hne, hlast, follow_append, hfollow]
      rfl
    next => exact exists_follow_of_follow_append h
  obtain ⟨here, hfollow, hstep⟩ := hroot
  rw [step_of_isName hname] at hstep
  have hshort : name.utf8ByteSize ≤ nameLimit := by
    rcases Nat.lt_or_ge nameLimit name.utf8ByteSize with hlong | hshort
    · simp [lookup_of_long hlong] at hstep
    · exact hshort
  have hlookup : disk.lookup (Place.mk here name).directory (Place.mk here name).name = .ok entry :=
    hstep
  rw [lookup_of_short (by exact hshort)] at hlookup
  refine ⟨here, hfollow, hshort, ?_⟩
  split at hlookup
  next found hfound => rw [hfound, Except.ok.inj hlookup]
  next => simp at hlookup

/-- What a path in a directory leads to stands at its place there. -/
theorem exists_names_of_resolve (hname : IsName name)
    (h : disk.resolve (path.child name) = .ok entry) :
    ∃ here, disk.follow (.directory top) path.segments = .ok (.directory here) ∧
      disk.Names (path.child name) ⟨here, name⟩ ∧ name.utf8ByteSize ≤ nameLimit ∧
      disk.entryAt? ⟨here, name⟩ = some entry := by
  obtain ⟨here, hfollow, hshort, hentry⟩ := exists_entry_of_follow_child hname (follow_of_resolve h)
  cases hallowed : refusal? (path.child name) with
  | some failure => simp [resolve, hallowed] at h
  | none => exact ⟨here, hfollow, names_child hfollow hname hallowed, hshort, hentry⟩

end CommitLog.Disk
