import CommitLog.Proofs.Partition.Overrun
import CommitLog.Proofs.Topic.PartitionFile

/-!
# Damage that is cut off

Recovering a partition cuts off a torn last write. Damage in front of the last frame that scans as
torn (`Partition.scan_of_damage`) is therefore cut off as well, and with it the whole frames behind
it, which nobody has touched. No other damage is: the file stays as it is.
-/

namespace CommitLog.Topic

open CommitLog.Frame (IsCommit)
open CommitLog.Partition (EndsInOverrun scanFile)

variable {config : Config} {disk : Disk} {directory path : Path} {number : UInt32} {file : Nat}
  {damaged : Bytes} {last : Frame}

/-- The scan of a damaged file. -/
theorem scanFile_of_damage (hfile : disk.resolve path = .ok (.file file))
    (hcontent : disk.content file = damaged ++ last.encode) (maxField maxWindow : Nat) :
    ((∃ found, scanFile disk path maxField maxWindow = .ok found ∧ found.torn.isSome) ↔
        EndsInOverrun maxField (damaged ++ last.encode)) ∧
      (¬EndsInOverrun maxField (damaged ++ last.encode) →
        (∃ found, scanFile disk path maxField maxWindow = .ok found ∧ found.torn = none ∧
          found.validBytes = (damaged ++ last.encode).length) ∨
        ∃ pos damage, scanFile disk path maxField maxWindow
          = .error (.corrupt path.display pos damage)) := by
  have hread : disk.read path = .ok (damaged ++ last.encode) := by
    unfold Disk.read
    rw [hfile, ← hcontent]
  rw [Partition.scanFile_of_read hread]
  rcases Partition.scan_of_damage maxField maxWindow damaged last with
    ⟨hover, frames, rest, torn, -, -, hscan⟩ | ⟨hover, ⟨frames, hdata, hscan⟩ | ⟨failure, hscan⟩⟩
  · rw [hscan]
    exact ⟨⟨fun _ => hover, fun _ => ⟨_, rfl, rfl⟩⟩, fun hnot => absurd hover hnot⟩
  · rw [hscan]
    refine ⟨⟨?_, fun h => absurd h hover⟩, fun _ => Or.inl ⟨_, rfl, rfl, by rw [hdata]⟩⟩
    rintro ⟨found, hfound, htorn⟩
    obtain rfl := Except.ok.inj hfound
    simp at htorn
  · rw [hscan]
    refine ⟨⟨?_, fun h => absurd h hover⟩, fun _ => Or.inr ⟨_, _, rfl⟩⟩
    rintro ⟨found, hfound, -⟩
    cases hfound

section Recover

variable (hsound : disk.Sound) (hreliable : disk.Reliable)
  (hfile : disk.resolve (directory.child (fileName number)) = .ok (.file file))
  (hcontent : disk.content file = damaged ++ last.encode)

include hsound hreliable hfile hcontent

/-- What becomes of a damaged file. -/
theorem content_of_damage (hrepair : config.repairTornTail = true)
    (happend : config.openFlags.contains .append = true) :
    ∃ result after, recoverPartition config directory number disk = (result, after) ∧
      (EndsInOverrun config.maxEntryBytes (damaged ++ last.encode) →
        result.toOption.isSome ∧ after.content file <+: damaged ++ last.encode ∧
          (after.content file).length < (damaged ++ last.encode).length) ∧
      (¬EndsInOverrun config.maxEntryBytes (damaged ++ last.encode) →
        after.content file = damaged ++ last.encode) := by
  obtain ⟨there, -, hnames, hshort, hentry⟩ :=
    Disk.exists_names_of_resolve (isName_fileName number) hfile
  have hscanned := Partition.scan_of_damage config.maxEntryBytes config.effectiveMaxMapBytes
    damaged last
  rw [← hcontent] at hscanned ⊢
  rcases hscanned with
    ⟨hover, frames, rest, torn, hdata, hrest, hscan⟩ |
      ⟨hover, ⟨frames, hdata, hscan⟩ | ⟨failure, hscan⟩⟩
  · obtain ⟨p, after, hrun, -, -, -, hkeeps, hholds⟩ := recoverPartition_of_scan hnames hshort
      hsound hreliable hentry hdata hscan (by simp [hrest]) (Or.inr ⟨hrepair, happend⟩)
    have hcut := hholds.stores.content (hkeeps.entryAt?_some _ _ hentry)
    refine ⟨_, after, hrun, fun _ => ⟨rfl, ?_, ?_⟩, fun h => absurd hover h⟩
    · rw [hcut, hdata]
      exact List.prefix_append _ _
    · rw [hcut, hdata, List.length_append]
      exact Nat.lt_add_of_pos_right (List.length_pos_iff.2 hrest)
  · have hwhole : disk.content file = Partition.encodeAll frames ++ [] := by
      rw [hdata, List.append_nil]
    obtain ⟨p, after, hrun, -, -, -, hkeeps, hholds⟩ := recoverPartition_of_scan hnames hshort
      hsound hreliable hentry hwhole hscan (by simp) (Or.inl rfl)
    refine ⟨_, after, hrun, fun h => absurd h hover, fun _ => ?_⟩
    rw [hholds.stores.content (hkeeps.entryAt?_some _ _ hentry), hdata]
  · have hrun : recoverPartition config directory number disk
        = (.error (.corrupt (directory.child (fileName number)).display failure.1 failure.2),
          disk) := by
      have hread : disk.read (directory.child (fileName number)) = .ok (disk.content file) := by
        unfold Disk.read
        rw [hfile]
      rw [recoverPartition, Partition.scanFile_of_read hread, hscan]
      rfl
    exact ⟨_, disk, hrun, fun h => absurd h hover, fun _ => rfl⟩

/-- **Damage in front of the last frame is taken for a torn write exactly when the data ends in an
overrun.** The bytes in front of the last frame may be anything at all. If they send the scan past
the end of the file, the partition is opened and the last frame is lost; if not, the scan comes to
the end of the file or reports damage, and the file stays as it is. -/
theorem recoverPartition_of_damage (hrepair : config.repairTornTail = true)
    (happend : config.openFlags.contains .append = true) :
    (∀ maxWindow, ((∃ found, scanFile disk (directory.child (fileName number))
          config.maxEntryBytes maxWindow = .ok found ∧ found.torn.isSome) ↔
        EndsInOverrun config.maxEntryBytes (damaged ++ last.encode)) ∧
      (¬EndsInOverrun config.maxEntryBytes (damaged ++ last.encode) →
        (∃ found, scanFile disk (directory.child (fileName number)) config.maxEntryBytes maxWindow
          = .ok found ∧ found.torn = none ∧ found.validBytes = (damaged ++ last.encode).length) ∨
        ∃ pos damage, scanFile disk (directory.child (fileName number)) config.maxEntryBytes
          maxWindow = .error (.corrupt (directory.child (fileName number)).display pos damage))) ∧
    ∃ result after, recoverPartition config directory number disk = (result, after) ∧
      (EndsInOverrun config.maxEntryBytes (damaged ++ last.encode) →
        result.toOption.isSome ∧ after.content file <+: damaged ++ last.encode ∧
          (after.content file).length < (damaged ++ last.encode).length) ∧
      (¬EndsInOverrun config.maxEntryBytes (damaged ++ last.encode) →
        after.content file = damaged ++ last.encode) :=
  ⟨fun maxWindow => scanFile_of_damage hfile hcontent config.maxEntryBytes maxWindow,
    content_of_damage hsound hreliable hfile hcontent hrepair happend⟩

end Recover

/-- A length of 200 bytes that is written over that of the key of the first of two commits: the
partition is opened, and its file is shorter than before. -/
theorem recoverPartition_of_overwritten_length :
    ∃ (disk after : Disk) (p : Partition) (file : Nat) (damaged : Bytes) (last : Frame),
      IsCommit 4194304 last ∧ disk.content file = damaged ++ last.encode ∧
        recoverPartition {} (Path.child ⟨["", ""]⟩ "t") 0 disk = (.ok p, after) ∧
        (after.content file).length < (damaged ++ last.encode).length := by
  let body : Bytes := [107] ++ Frame.encodeField [118] ++ Bytes.ofUInt32 Frame.delimiter
  let damaged : Bytes := Frame.encodeHeader ⟨1, 2⟩ 3 ++ (Bytes.ofUInt32 200 ++ body)
  let last : Frame := ⟨⟨4, 5⟩, 6, [107], [[119]]⟩
  obtain ⟨disk, hsound, hreliable, -, file, hfile, hcontent⟩ :=
    exists_disk_of_content (damaged ++ last.encode) (by decide)
  have hover : EndsInOverrun 4194304 (damaged ++ last.encode) := by
    refine ⟨[], damaged ++ last.encode, by simp, rfl, by decide, ?_⟩
    simp only [damaged, List.append_assoc]
    exact .fields (.noBody (by decide) (by decide) (by decide))
  obtain ⟨-, result, after, hrun, hcut, -⟩ := recoverPartition_of_damage hsound hreliable hfile
    hcontent (show ({} : Config).repairTornTail = true from rfl) (by decide)
  obtain ⟨hopened, -, hless⟩ := hcut hover
  cases result with
  | error e => simp [Except.toOption] at hopened
  | ok p => exact ⟨disk, after, p, file, damaged, last, by decide, hcontent, hrun, hless⟩

end CommitLog.Topic
