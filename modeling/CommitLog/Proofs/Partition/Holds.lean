import CommitLog.Proofs.Commits
import CommitLog.Proofs.Disk.Paths

/-!
# Partitions that hold frames

A partition keeps its frames twice: as bytes in a file, and as locations in its index. `Holds` says
that both tell of the same frames. Appending brings the two forward together or leaves both alone
(`append_of_holds`), and scanning the file finds the index (`scanFile_of_holds`).
-/

namespace CommitLog.Partition

open CommitLog.Disk (Place Keeps nameLimit maxFileLength)
open CommitLog.Frame (IsCommit)

variable {p : Partition} {disk : Disk} {place : Place} {frames : List Frame} {maxField : Nat}

/-- The file of a partition and its index tell of the same frames. -/
structure Holds (p : Partition) (disk : Disk) (place : Place) (frames : List Frame) : Prop where
  names : disk.Names p.path place
  short : place.name.utf8ByteSize ≤ nameLimit
  stores : disk.Stores place (encodeAll frames)
  index : p.frames = locations frames
  tailOffset : p.tailOffset = entryCount frames
  tailBytes : p.tailBytes = (encodeAll frames).length
  handle : ∀ handle, p.handle = some handle →
    ∃ number, handle = .file number ∧ disk.entryAt? place = some (.file number)

/-- What happens elsewhere on the disk is no concern of a partition. -/
theorem Holds.keeps {after : Disk} {kept : Place → Prop} (h : p.Holds disk place frames)
    (hdisk : disk.Sound) (hkeeps : Keeps disk after kept) (hplace : kept place) :
    p.Holds after place frames where
  names := hkeeps.names hdisk h.names
  short := h.short
  stores := hkeeps.stores hplace h.stores
  index := h.index
  tailOffset := h.tailOffset
  tailBytes := h.tailBytes
  handle handle hhandle := by
    obtain ⟨number, rfl, hentry⟩ := h.handle handle hhandle
    exact ⟨number, rfl, hkeeps.entryAt?_some place _ hentry⟩

/-! ## Recording -/

theorem recordAll_locate (p : Partition) (spans : List Frame.Span) :
    recordAll p (locate p.tailOffset p.tailBytes spans)
      = { p with
          frames := p.frames ++ locate p.tailOffset p.tailBytes spans
          tailOffset := p.tailOffset + total (spans.map Frame.Span.entries)
          tailBytes := p.tailBytes + total (spans.map Frame.Span.length) } := by
  induction spans generalizing p with
  | nil => simp [recordAll, locate]
  | cons span later ih =>
    have hstep := ih (p.record ⟨p.tailOffset, p.tailBytes, span.length, span.entries⟩)
    simp only [recordAll] at hstep
    simp only [locate, recordAll, List.foldl_cons]
    simp only [record, Location.stop, Location.endPos] at hstep ⊢
    rw [hstep]
    simp [Nat.add_assoc]

/-- A new partition that records what a scan has found. -/
theorem recordAll_locations (number : UInt32) (path : Path) (frames : List Frame) :
    recordAll { number, path } (locations frames)
      = { number, path, frames := locations frames, tailOffset := entryCount frames,
          tailBytes := (encodeAll frames).length } := by
  have h := recordAll_locate { number, path } (frames.map Frame.span)
  simp only [total_span_entries, total_span_length, List.nil_append, Nat.zero_add] at h
  exact h

/-! ## Scanning -/

/-- A file is scanned as its content is. -/
theorem scanFile_of_read {path : Path} {data : Bytes} (h : disk.read path = .ok data)
    (maxField maxWindow : Nat) :
    scanFile disk path maxField maxWindow
      = (scan maxField maxWindow data).mapError fun (pos, damage) =>
          .corrupt path.display pos damage := by
  unfold scanFile
  rw [h]

theorem scanFile_of_scan {path : Path} {data : Bytes} {found : Scan} {maxWindow : Nat}
    (hread : disk.read path = .ok data) (hscan : scan maxField maxWindow data = .ok found) :
    scanFile disk path maxField maxWindow = .ok found := by
  rw [scanFile_of_read hread, hscan]
  rfl

/-- A scan of the file finds what the index says, and nothing torn. -/
theorem scanFile_of_holds (h : p.Holds disk place frames)
    (hframes : ∀ frame ∈ frames, IsCommit maxField frame) (maxWindow : Nat) :
    scanFile disk p.path maxField maxWindow
      = .ok ⟨locations frames, (encodeAll frames).length, entryCount frames, none⟩ := by
  rcases h.stores with ⟨number, hentry, hcontent⟩ | ⟨hentry, hdata⟩
  · refine scanFile_of_scan (Disk.read_of_file h.names h.short hentry) ?_
    rw [hcontent, scan_encodeAll hframes]
  · obtain rfl := encodeAll_eq_nil hdata
    unfold scanFile
    rw [Disk.read_of_none h.names h.short hentry]
    rfl

/-- Scanning the file again confirms the tail. -/
theorem verify_of_holds (h : p.Holds disk place frames)
    (hframes : ∀ frame ∈ frames, IsCommit maxField frame) (maxWindow : Nat) :
    p.verify disk maxField maxWindow = .ok p.tail := by
  unfold verify
  rw [scanFile_of_holds h hframes]
  simp only [bind, Except.bind, h.tailOffset, Nat.lt_irrefl, if_false, pure, Except.pure]
  unfold tail
  rw [h.tailOffset]

end CommitLog.Partition
