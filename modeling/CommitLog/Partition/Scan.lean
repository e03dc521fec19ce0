import CommitLog.Partition.Damage

/-!
# Scanning partition files

Opening a partition walks its file from frame to frame. The file is looked at through windows of
bounded length; a window grows only for a frame that is longer than it. What is left behind the
last whole frame decides: a frame that is cut short by the end of the file, or nothing but zeros,
is a torn last write; anything else is damage.

`plainScan` says the same without windows: it measures frame after frame over the whole file.
-/

namespace CommitLog.Partition

open CommitLog.Frame (Span)

/-- Where a frame lies: the entries before it, and its place in the file. -/
structure Location where
  /-- How many entries of the partition come before the frame. -/
  start : Nat
  pos : Nat
  length : Nat
  entries : Nat
deriving DecidableEq, Repr, Inhabited

namespace Location

/-- How many entries of the partition lie before the end of the frame. -/
def stop (loc : Location) : Nat := loc.start + loc.entries

/-- The place in the file behind the frame. -/
def endPos (loc : Location) : Nat := loc.pos + loc.length

end Location

/-! ## Measuring frame after frame -/

/-- What stands where a walk from frame to frame stops. -/
inductive Stop where
  /-- The end of the data. -/
  | atEnd
  /-- A frame without entries. -/
  | noEntries
  /-- Something that is no frame. -/
  | failed (error : Frame.Error)
deriving DecidableEq, Repr, Inhabited

/-- A walk from frame to frame: the room of each, and what stands behind them. -/
structure Measured where
  spans : List Span
  stop : Stop
deriving DecidableEq, Repr, Inhabited

namespace Measured

/-- How many bytes the frames take. -/
def length (found : Measured) : Nat := total (found.spans.map Span.length)

/-- How many entries the frames hold. -/
def entries (found : Measured) : Nat := total (found.spans.map Span.entries)

end Measured

/-- Measures frame after frame from the front of the data. -/
def measureAll (maxField : Nat) (data : Bytes) : Measured :=
  if data.isEmpty then ⟨[], .atEnd⟩
  else
    match _h : Frame.measure maxField data with
    | .error e => ⟨[], .failed e⟩
    | .ok span =>
      if span.entries = 0 then ⟨[], .noEntries⟩
      else
        let later := measureAll maxField (data.drop span.length)
        ⟨span :: later.spans, later.stop⟩
termination_by data.length
decreasing_by
  have hpos := Frame.length_pos_of_measure _h
  have hne : 0 < data.length := by
    cases data with
    | nil => simp_all
    | cons b rest => simp
  simp only [List.length_drop]
  omega

/-- The locations of frames that lie one behind the other. -/
def locate (start pos : Nat) : List Span → List Location
  | [] => []
  | span :: later =>
    ⟨start, pos, span.length, span.entries⟩
      :: locate (start + span.entries) (pos + span.length) later

/-! ## Scanning -/

/-- What a scan has found in a partition file. -/
structure Scan where
  frames : List Location
  /-- How many bytes the whole frames take. -/
  validBytes : Nat
  /-- How many entries the whole frames hold. -/
  entries : Nat
  torn : Option Torn
deriving DecidableEq, Repr, Inhabited

namespace Scan

/-- Nothing found: the scan of an empty or missing file. -/
def empty : Scan := ⟨[], 0, 0, none⟩

/-- The scan with frames in front. -/
def behind (frames : List Location) (scan : Scan) : Scan :=
  { scan with frames := frames ++ scan.frames }

end Scan

/-- Whether there is nothing but zeros. -/
def allZero (data : Bytes) : Bool := data.all fun b => b == 0

/-- The verdict on `rest`, which stands at `pos` behind frames of `entries` entries and does not
begin with a frame. -/
def judge (error : Frame.Error) (rest : Bytes) (pos entries : Nat) :
    Except (Nat × Damage) Scan :=
  match error with
  | .incomplete available => .ok ⟨[], pos, entries, some (.cutShort pos available)⟩
  | error =>
    if allZero rest then .ok ⟨[], pos, entries, some (.zeros rest.length pos)⟩
    else .error (pos, .frame error)

/-- Whether there is nothing but zeros, looked at through windows of one length. -/
def zeroFilled (window : Nat) (hwindow : 0 < window) (rest : Bytes) : Bool :=
  if _hrest : rest = [] then true
  else if (rest.take window).any fun b => b != 0 then false
  else zeroFilled window hwindow (rest.drop window)
termination_by rest.length
decreasing_by
  have hlen : 0 < rest.length := List.length_pos_iff.2 _hrest
  simp only [List.length_drop]
  omega

/-- The verdict of a scan through windows on `rest`, which stands at `pos` behind frames of
`entries` entries and is no frame, however much of it is looked at. -/
def judgeWindows (window : Nat) (hwindow : 0 < window) (error : Frame.Error) (rest : Bytes)
    (pos entries : Nat) : Except (Nat × Damage) Scan :=
  if zeroFilled window hwindow rest then .ok ⟨[], pos, entries, some (.zeros rest.length pos)⟩
  else .error (pos, .frame error)

/-- Measures a whole file at once. -/
def plainScan (maxField : Nat) (data : Bytes) : Except (Nat × Damage) Scan :=
  let found := measureAll maxField data
  let tail : Except (Nat × Damage) Scan :=
    match found.stop with
    | .atEnd => .ok ⟨[], found.length, found.entries, none⟩
    | .noEntries => .error (found.length, .noEntries)
    | .failed error => judge error (data.drop found.length) found.length found.entries
  tail.map (Scan.behind (locate 0 0 found.spans))

theorem length_measureAll_pos {maxField : Nat} {data : Bytes} (hdata : data ≠ [])
    (hstop : (measureAll maxField data).stop = .atEnd) : 0 < (measureAll maxField data).length := by
  rw [measureAll] at hstop ⊢
  split at hstop
  next h => exact absurd (List.isEmpty_iff.1 h) hdata
  next h =>
    split at hstop
    next => simp at hstop
    next span hm =>
      split at hstop
      next => simp at hstop
      next hentries =>
        have hpos := Frame.length_pos_of_measure hm
        simp only [h, Bool.false_eq_true, if_false, hentries, Measured.length, List.map_cons,
          total_cons]
        omega

/-- Scans the rest of a file, which stands at `pos` behind frames of `entries` entries, through a
window. A window that is too short for a single frame grows to twice its length. -/
def scanWindows (maxField base : Nat) (hbase : 0 < base) (window : Nat) (hwindow : 0 < window)
    (rest : Bytes) (pos entries : Nat) : Except (Nat × Damage) Scan :=
  if hrest : rest = [] then .ok ⟨[], pos, entries, none⟩
  else
    let found := measureAll maxField (rest.take window)
    let frames := locate entries pos found.spans
    let stopPos := pos + found.length
    let stopEntries := entries + found.entries
    let next := rest.drop found.length
    let reachesEnd := (rest.drop window).isEmpty
    match hstop : found.stop with
    | .noEntries => .error (stopPos, .noEntries)
    | .failed (.incomplete available) =>
      if hend : reachesEnd then
        (judge (.incomplete available) next stopPos stopEntries).map (Scan.behind frames)
      else if hlength : found.length = 0 then
        scanWindows maxField base hbase (2 * window) (by omega) rest pos entries
      else
        (scanWindows maxField base hbase base hbase next stopPos stopEntries).map
          (Scan.behind frames)
    | .failed error =>
      (judgeWindows base hbase error next stopPos stopEntries).map (Scan.behind frames)
    | .atEnd =>
      (scanWindows maxField base hbase base hbase next stopPos stopEntries).map
        (Scan.behind frames)
termination_by (rest.length, rest.length - window)
decreasing_by
  · apply Prod.Lex.right
    simp only [reachesEnd, List.isEmpty_iff, List.drop_eq_nil_iff, Nat.not_le] at hend
    omega
  · apply Prod.Lex.left
    have hlen : 0 < rest.length := List.length_pos_iff.2 hrest
    have hfound : (measureAll maxField (rest.take window)).length ≠ 0 := hlength
    simp only [List.length_drop]
    omega
  · apply Prod.Lex.left
    have hlen : 0 < rest.length := List.length_pos_iff.2 hrest
    have htake : rest.take window ≠ [] := by
      intro h
      have hcount := congrArg List.length h
      simp only [List.length_take, List.length_nil] at hcount
      omega
    have hfound : 0 < (measureAll maxField (rest.take window)).length :=
      length_measureAll_pos htake hstop
    simp only [List.length_drop]
    omega

/-- The length of a window: one byte at least. -/
def windowLength (maxWindow : Nat) : Nat := max maxWindow 1

theorem windowLength_pos (maxWindow : Nat) : 0 < windowLength maxWindow := by
  unfold windowLength
  omega

/-- Scans a file through windows. -/
def scan (maxField maxWindow : Nat) (data : Bytes) : Except (Nat × Damage) Scan :=
  scanWindows maxField (windowLength maxWindow) (windowLength_pos maxWindow)
    (windowLength maxWindow) (windowLength_pos maxWindow) data 0 0

end CommitLog.Partition
