import CommitLog.Proofs.Disk.Names

/-!
# Operations on open files that go wrong

Whatever goes wrong with an operation on an open file, it changes the bytes of that file at most, in
one of a few ways: a write leaves some front part of its bytes behind what was there, and giving a
file a length either does so or does nothing. `Alters` says what a file holds afterwards, and that
everything else is as before; nothing is said about what is still to go wrong.
-/

namespace CommitLog.Disk

variable {disk after last : Disk} {number : Nat} {bytes : Bytes} {result : Except Failure Unit}

/-- One file holds the given bytes now, and all other files and all names are as before. -/
structure Alters (disk after : Disk) (number : Nat) (bytes : Bytes) : Prop where
  directories : after.directories = disk.directories
  size : after.contents.size = disk.contents.size
  content : after.content number = bytes
  content_of_ne : ∀ other, other ≠ number → after.content other = disk.content other

theorem alters_refl (disk : Disk) (number : Nat) :
    Alters disk disk number (disk.content number) := ⟨rfl, rfl, rfl, fun _ _ => rfl⟩

theorem Alters.trans {later : Bytes} (h : Alters disk after number bytes)
    (h' : Alters after last number later) : Alters disk last number later where
  directories := by rw [h'.directories, h.directories]
  size := by rw [h'.size, h.size]
  content := h'.content
  content_of_ne other hne := by rw [h'.content_of_ne other hne, h.content_of_ne other hne]

/-! ## Paths -/

theorem follow_congr (h : after.directories = disk.directories) (entry : Entry)
    (segments : List String) : after.follow entry segments = disk.follow entry segments := by
  have hstep : ∀ here segment, after.step here segment = disk.step here segment := by
    intro here segment
    simp only [step, lookup, directory, h]
  induction segments generalizing entry with
  | nil => rfl
  | cons segment later ih =>
    cases entry with
    | directory here =>
      simp only [follow, hstep]
      cases disk.step here segment with
      | error failure => rfl
      | ok reached => exact ih reached
    | file number => rfl
    | device => rfl

/-- Where a path leads is a matter of the directories alone. -/
theorem resolve_congr (h : after.directories = disk.directories) (path : Path) :
    after.resolve path = disk.resolve path := by
  unfold resolve
  rw [follow_congr h]

/-- What a path is read as is a matter of the directories and the bytes of the files. -/
theorem read_congr (h : after.directories = disk.directories)
    (hcontents : after.contents = disk.contents) (path : Path) :
    after.read path = disk.read path := by
  unfold read content
  rw [resolve_congr h, hcontents]

theorem read_of_resolve {path : Path} (h : disk.resolve path = .ok (.file number)) :
    disk.read path = .ok (disk.content number) := by
  unfold read
  rw [h]

/-! ## Operations -/

theorem nextFault_snd (disk : Disk) :
    disk.nextFault.2.directories = disk.directories ∧
      disk.nextFault.2.contents = disk.contents := by
  unfold nextFault
  split <;> exact ⟨rfl, rfl⟩

theorem alters_nextFault (disk : Disk) (number : Nat) :
    Alters disk disk.nextFault.2 number (disk.content number) := by
  obtain ⟨hdirectories, hcontents⟩ := nextFault_snd disk
  refine ⟨hdirectories, by rw [hcontents], ?_, fun other _ => ?_⟩
  all_goals rw [content, hcontents, content]

theorem alters_appendContent (hnumber : number < disk.contents.size) (bytes : Bytes) :
    Alters disk (disk.appendContent number bytes) number (disk.content number ++ bytes) where
  directories := rfl
  size := Array.size_modify
  content := (content_modifyContent _ hnumber).trans (by simp)
  content_of_ne _ hne := content_modifyContent_of_ne _ hne

theorem alters_setContent (hnumber : number < disk.contents.size) (bytes : Bytes) :
    Alters disk (disk.setContent number bytes) number bytes where
  directories := rfl
  size := Array.size_modify
  content := content_modifyContent _ hnumber
  content_of_ne _ hne := content_modifyContent_of_ne _ hne

/-- A write leaves a front part of its bytes behind what was there, and all of them if it says
so. -/
theorem alters_append (hnumber : number < disk.contents.size)
    (hrun : disk.append (.file number) bytes = (result, after)) :
    ∃ landed, Alters disk after number (disk.content number ++ bytes.take landed) ∧
      (result = .ok () → bytes.take landed = bytes ∧
        (disk.content number).length + bytes.length ≤ maxFileLength) := by
  have hnext := alters_nextFault disk number
  unfold append at hrun
  rcases hfault : disk.nextFault with ⟨_ | fault, next⟩
  · rw [hfault] at hnext
    have hsize : number < next.contents.size := by rw [hnext.size]; exact hnumber
    simp only [hfault] at hrun
    split at hrun
    next =>
      obtain ⟨rfl, rfl⟩ := hrun
      exact ⟨0, by simpa using hnext, nofun⟩
    next hroom =>
      obtain ⟨rfl, rfl⟩ := hrun
      have hlands := hnext.trans (alters_appendContent hsize bytes)
      rw [hnext.content] at hlands
      rw [← length_content, hnext.content] at hroom
      exact ⟨bytes.length, by rwa [List.take_length], fun _ =>
        ⟨List.take_length, Nat.not_lt.1 hroom⟩⟩
  · rw [hfault] at hnext
    have hsize : number < next.contents.size := by rw [hnext.size]; exact hnumber
    simp only [hfault] at hrun
    obtain ⟨rfl, rfl⟩ := hrun
    have hlands := hnext.trans (alters_appendContent hsize (bytes.take fault.landed))
    rw [hnext.content] at hlands
    exact ⟨fault.landed, hlands, nofun⟩

theorem alters_sync (hrun : disk.sync (.file number) = (result, after)) :
    Alters disk after number (disk.content number) := by
  have hnext := alters_nextFault disk number
  unfold sync at hrun
  rcases hfault : disk.nextFault with ⟨_ | fault, next⟩
  all_goals
    rw [hfault] at hnext
    simp only [hfault] at hrun
    obtain ⟨-, rfl⟩ := hrun
    exact hnext

/-- A file is cut to a length that it exceeds, or nothing is done and it is said so. -/
theorem alters_setLength (hnumber : number < disk.contents.size) {length : Nat}
    (hlength : length ≤ (disk.content number).length)
    (hrun : disk.setLength (.file number) length = (result, after)) :
    result = .ok () ∧ Alters disk after number ((disk.content number).take length) ∨
      result ≠ .ok () ∧ Alters disk after number (disk.content number) := by
  have hnext := alters_nextFault disk number
  unfold setLength at hrun
  rcases hfault : disk.nextFault with ⟨_ | fault, next⟩
  · rw [hfault] at hnext
    have hsize : number < next.contents.size := by rw [hnext.size]; exact hnumber
    simp only [hfault] at hrun
    obtain ⟨rfl, rfl⟩ := hrun
    have hcut : resized (disk.content number) length = (disk.content number).take length := by
      unfold resized
      rw [Nat.sub_eq_zero_of_le hlength, List.replicate_zero, List.append_nil]
    have hsets := hnext.trans (alters_setContent hsize (resized (next.content number) length))
    rw [hnext.content, hcut] at hsets
    exact .inl ⟨rfl, by rwa [hnext.content, hcut]⟩
  · rw [hfault] at hnext
    simp only [hfault] at hrun
    obtain ⟨rfl, rfl⟩ := hrun
    exact .inr ⟨nofun, hnext⟩

end CommitLog.Disk
