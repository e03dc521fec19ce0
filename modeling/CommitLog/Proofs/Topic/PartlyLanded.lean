import CommitLog.Proofs.Partition.PartlyLanded
import CommitLog.Proofs.Topic.PartitionFile

/-!
# Opening a partition whose last frame has landed in part

A file may have grown before the data of its last frame came to the disk. Recovering the partition
cuts that frame off and keeps the whole frames in front of it, unless zeros make another word of a
delimiter that landed in part (`Frame.Misread`). Then the partition is not opened, and its file
stays as it is.
-/

namespace CommitLog.Topic

open CommitLog.Disk (Place Keeps)
open CommitLog.Frame (IsCommit Misread partlyLanded)
open CommitLog.Partition (encodeAll entryCount locations scanFile)

variable {config : Config} {disk : Disk} {directory : Path} {number : UInt32} {file : Nat}
  {frames : List Frame} {next : Frame} {landed zeros : Nat}

theorem read_of_content {path : Path} {data : Bytes} (hfile : disk.resolve path = .ok (.file file))
    (hcontent : disk.content file = data) : disk.read path = .ok data := by
  unfold Disk.read
  rw [hfile, ← hcontent]

section Recover

variable (hsound : disk.Sound) (hreliable : disk.Reliable)
  (hfile : disk.resolve (directory.child (fileName number)) = .ok (.file file))
  (hcontent : disk.content file = encodeAll frames ++ partlyLanded next landed zeros)
  (hframes : ∀ frame ∈ frames, IsCommit config.maxEntryBytes frame)
  (hnext : IsCommit config.maxEntryBytes next) (hpos : 0 < landed)
  (hlanded : landed < next.encode.length)

include hfile hcontent hframes hnext hpos hlanded

/-- A misread frame fails the scan, and recovering leaves the disk alone. -/
theorem recoverPartition_of_misread {e : Frame.Error}
    (h : Misread config.maxEntryBytes next landed zeros e) :
    (∀ maxWindow, scanFile disk (directory.child (fileName number)) config.maxEntryBytes maxWindow
      = .error (.corrupt (directory.child (fileName number)).display (encodeAll frames).length
          (.frame e))) ∧
    recoverPartition config directory number disk
      = (.error (.corrupt (directory.child (fileName number)).display (encodeAll frames).length
          (.frame e)), disk) := by
  have hscan : ∀ maxWindow,
      scanFile disk (directory.child (fileName number)) config.maxEntryBytes maxWindow
        = .error (.corrupt (directory.child (fileName number)).display (encodeAll frames).length
            (.frame e)) := by
    intro maxWindow
    rw [Partition.scanFile_of_read (read_of_content hfile hcontent),
      Partition.scan_of_misread hframes hnext hpos hlanded h maxWindow]
    rfl
  refine ⟨hscan, ?_⟩
  rw [recoverPartition, hscan]

include hsound hreliable

/-- Any other frame that landed in part is cut off. -/
theorem recoverPartition_of_not_misread (hrepair : config.repairTornTail = true)
    (happend : config.openFlags.contains .append = true)
    (h : ∀ e, ¬Misread config.maxEntryBytes next landed zeros e) :
    (∀ maxWindow, scanFile disk (directory.child (fileName number)) config.maxEntryBytes maxWindow
      = .ok ⟨locations frames, (encodeAll frames).length, entryCount frames,
          some (.cutShort (encodeAll frames).length (landed + zeros))⟩) ∧
    ∃ p after place, recoverPartition config directory number disk = (.ok p, after) ∧
      p.number = number ∧ p.Holds after place frames ∧ Keeps disk after (· ≠ place) ∧
      after.content file = encodeAll frames := by
  have hscan := Partition.scan_of_not_misread hframes hnext hpos hlanded h
  refine ⟨fun maxWindow => ?_, ?_⟩
  · exact Partition.scanFile_of_scan (read_of_content hfile hcontent) (hscan maxWindow)
  · obtain ⟨here, -, hnames, hshort, hentry⟩ :=
      Disk.exists_names_of_resolve (isName_fileName number) hfile
    have hscanned := hscan config.effectiveMaxMapBytes
    rw [← hcontent] at hscanned
    have hleft := Partition.partlyLanded_ne_nil hpos hlanded zeros
    obtain ⟨p, after, hrun, hnumber, -, -, hkeeps, hholds⟩ :=
      recoverPartition_of_scan hnames hshort hsound hreliable hentry hcontent hscanned
        (by simp [hleft]) (Or.inr ⟨hrepair, happend⟩)
    exact ⟨p, after, _, hrun, hnumber, hholds, hkeeps,
      hholds.stores.content (hkeeps.entryAt?_some _ _ hentry)⟩

/-- **A last frame that landed in part is taken for a torn write, unless a delimiter of it is
misread.** The cut may fall anywhere in the frame, and any number of zeros may follow. A torn frame
is cut off, and the partition holds every whole frame in front of it; a misread delimiter is damage,
and nothing is changed. -/
theorem recoverPartition_of_partlyLanded (hrepair : config.repairTornTail = true)
    (happend : config.openFlags.contains .append = true) :
    (∃ e, Misread config.maxEntryBytes next landed zeros e ∧
      (∀ maxWindow, scanFile disk (directory.child (fileName number)) config.maxEntryBytes
          maxWindow
        = .error (.corrupt (directory.child (fileName number)).display (encodeAll frames).length
            (.frame e))) ∧
      recoverPartition config directory number disk
        = (.error (.corrupt (directory.child (fileName number)).display
            (encodeAll frames).length (.frame e)), disk)) ∨
    (∀ e, ¬Misread config.maxEntryBytes next landed zeros e) ∧
      (∀ maxWindow, scanFile disk (directory.child (fileName number)) config.maxEntryBytes
          maxWindow
        = .ok ⟨locations frames, (encodeAll frames).length, entryCount frames,
            some (.cutShort (encodeAll frames).length (landed + zeros))⟩) ∧
      ∃ p after place, recoverPartition config directory number disk = (.ok p, after) ∧
        p.number = number ∧ p.Holds after place frames ∧ Keeps disk after (· ≠ place) ∧
        after.content file = encodeAll frames := by
  by_cases h : ∃ e, Misread config.maxEntryBytes next landed zeros e
  · obtain ⟨e, h⟩ := h
    exact Or.inl ⟨e, h, recoverPartition_of_misread hfile hcontent hframes hnext hpos hlanded h⟩
  · have h' : ∀ e, ¬Misread config.maxEntryBytes next landed zeros e := fun e he => h ⟨e, he⟩
    exact Or.inr ⟨h', recoverPartition_of_not_misread hsound hreliable hfile hcontent hframes hnext
      hpos hlanded hrepair happend h'⟩

end Recover

/-- The length of a key that landed in part, with zeros up to the length of the frame: the
partition is opened, and holds the commit in front. -/
theorem recoverPartition_of_landed_length :
    ∃ (disk after : Disk) (p : Partition) (place : Place) (file : Nat) (first next : Frame),
      disk.content file = encodeAll [first] ++ partlyLanded next 30 12 ∧
        recoverPartition {} (Path.child ⟨["", ""]⟩ "t") 0 disk = (.ok p, after) ∧
        p.Holds after place [first] ∧ after.content file = encodeAll [first] := by
  let first : Frame := ⟨⟨1, 2⟩, 3, [107], [[118]]⟩
  let next : Frame := ⟨⟨4, 5⟩, 6, [107], [[119]]⟩
  have hone : IsCommit 4194304 first := by decide
  have htwo : IsCommit 4194304 next := by decide
  obtain ⟨disk, hsound, hreliable, -, file, hfile, hcontent⟩ :=
    exists_disk_of_content (encodeAll [first] ++ partlyLanded next 30 12) (by decide)
  have hframes : ∀ frame ∈ [first], IsCommit ({} : Config).maxEntryBytes frame := by
    intro frame hframe
    obtain rfl := List.mem_singleton.1 hframe
    exact hone
  have hread : ∀ e, ¬Misread ({} : Config).maxEntryBytes next 30 12 e := by
    intro e he
    have hlength : next.encode.length = 42 := by decide
    cases he with
    | opening hcut => simp [Frame.wordSize] at hcut
    | closing hcut hpart =>
      simp only [Frame.wordSize, hlength] at hcut
      omega
  rcases recoverPartition_of_partlyLanded hsound hreliable hfile hcontent hframes htwo (by decide)
    (by decide) (show ({} : Config).repairTornTail = true from rfl) (by decide) with
    ⟨e, he, -⟩ | ⟨-, -, p, after, place, hrun, -, hholds, -, hcut⟩
  · exact absurd he (hread e)
  · exact ⟨disk, after, p, place, file, first, next, hcontent, hrun, hholds, hcut⟩

end CommitLog.Topic
