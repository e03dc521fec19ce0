import CommitLog.Partition.Scan
import CommitLog.Proofs.Frame.Measure

/-!
# Walking over partition files

A scan looks at a file through windows and starts again where a window ends inside a frame.
`scan_eq_plainScan` says that the windows make no difference: what is found is what a walk over
the whole file at once finds, and every verdict is the same.

A window shows the front of what is left of the file. What the walk finds there, it finds in the
whole as well (`measureAll_append`), and a verdict on something that is no frame is final
(`measureAll_append_of_settled`). Only running out of data is not: then the window ends inside a
frame, and the walk goes on from the place where that frame starts.
-/

namespace CommitLog.Partition

open CommitLog.Frame (Span)

variable {maxField : Nat}

/-! ## Walks -/

/-- The walk with frames in front. -/
def Measured.behind (spans : List Span) (found : Measured) : Measured :=
  ⟨spans ++ found.spans, found.stop⟩

theorem measureAll_nil : measureAll maxField [] = ⟨[], .atEnd⟩ := by
  unfold measureAll
  rfl

theorem measureAll_of_error {data : Bytes} (hdata : data ≠ []) {e : Frame.Error}
    (h : Frame.measure maxField data = .error e) : measureAll maxField data = ⟨[], .failed e⟩ := by
  unfold measureAll
  rw [if_neg (by simpa using hdata)]
  split
  next e' h' =>
    rw [h] at h'
    rw [Except.error.inj h']
  next h' =>
    rw [h] at h'
    simp at h'

theorem measureAll_of_ok {data : Bytes} {span : Span} (h : Frame.measure maxField data = .ok span) :
    measureAll maxField data
      = if span.entries = 0 then ⟨[], .noEntries⟩
        else (measureAll maxField (data.drop span.length)).behind [span] := by
  have hdata : data ≠ [] := by
    rintro rfl
    rw [Frame.measure_of_length_lt (by decide)] at h
    simp at h
  rw [measureAll, if_neg (by simpa using hdata)]
  split
  next h' =>
    rw [h] at h'
    simp at h'
  next span' h' =>
    rw [h] at h'
    obtain rfl := Except.ok.inj h'
    rfl

theorem Measured.length_behind (spans : List Span) (found : Measured) :
    (found.behind spans).length = total (spans.map Span.length) + found.length := by
  simp only [Measured.behind, Measured.length, List.map_append, total_append]

theorem Measured.entries_behind (spans : List Span) (found : Measured) :
    (found.behind spans).entries = total (spans.map Span.entries) + found.entries := by
  simp only [Measured.behind, Measured.entries, List.map_append, total_append]

theorem length_le_of_measure {data : Bytes} {span : Span}
    (h : Frame.measure maxField data = .ok span) : span.length ≤ data.length := by
  obtain ⟨frame, later, -, rfl, rfl⟩ := Frame.measure_eq_ok_iff.1 h
  rw [List.length_append]
  exact Nat.le_add_right _ _

/-- What the walk finds at the front of the data it finds in the whole, and goes on from there. -/
theorem measureAll_append (maxField : Nat) (data more : Bytes) :
    measureAll maxField (data ++ more)
      = (measureAll maxField ((data ++ more).drop (measureAll maxField data).length)).behind
          (measureAll maxField data).spans := by
  fun_induction measureAll maxField data with
  | case1 => rfl
  | case2 => rfl
  | case3 => rfl
  | case4 data hdata span hm hentries later ih =>
    -- a frame that was measured whole stays so when more data follows
    have hlen := length_le_of_measure hm
    have hm' : Frame.measure maxField (data ++ more) = .ok span := by
      rw [Frame.measure_append_of_ne_incomplete (by simp [hm]), hm]
    rw [measureAll_of_ok hm', if_neg hentries, List.drop_append_of_le_length hlen, ih]
    have hdrop : (data ++ more).drop (span.length + later.length)
        = (data.drop span.length ++ more).drop later.length := by
      rw [← List.drop_drop, List.drop_append_of_le_length hlen]
    simp only [Measured.length, List.map_cons, total_cons] at hdrop ⊢
    rw [hdrop]
    rfl

/-- A verdict other than running out of data is final. -/
theorem measureAll_append_of_settled {data : Bytes}
    (hend : (measureAll maxField data).stop ≠ .atEnd)
    (hmore : ∀ available, (measureAll maxField data).stop ≠ .failed (.incomplete available))
    (more : Bytes) : measureAll maxField (data ++ more) = measureAll maxField data := by
  fun_induction measureAll maxField data with
  | case1 => exact absurd rfl hend
  | case2 data hdata e hm =>
    have hm' : Frame.measure maxField (data ++ more) = .error e := by
      rw [Frame.measure_append_of_ne_incomplete, hm]
      intro available h
      rw [hm] at h
      exact hmore available (by rw [Except.error.inj h])
    have hne : data ++ more ≠ [] := by simp_all
    rw [measureAll_of_error hne hm']
  | case3 data hdata span hm hentries =>
    have hm' : Frame.measure maxField (data ++ more) = .ok span := by
      rw [Frame.measure_append_of_ne_incomplete (by simp [hm]), hm]
    rw [measureAll_of_ok hm', if_pos hentries]
  | case4 data hdata span hm hentries later ih =>
    have hm' : Frame.measure maxField (data ++ more) = .ok span := by
      rw [Frame.measure_append_of_ne_incomplete (by simp [hm]), hm]
    rw [measureAll_of_ok hm', if_neg hentries,
      List.drop_append_of_le_length (length_le_of_measure hm), ih hend hmore]
    rfl

/-! ## Windows -/

/-- The verdict of a walk over `rest`, which stands at `pos` behind frames of `entries` entries. -/
def plainScanFrom (maxField : Nat) (rest : Bytes) (pos entries : Nat) :
    Except (Nat × Damage) Scan :=
  let found := measureAll maxField rest
  let tail : Except (Nat × Damage) Scan :=
    match found.stop with
    | .atEnd => .ok ⟨[], pos + found.length, entries + found.entries, none⟩
    | .noEntries => .error (pos + found.length, .noEntries)
    | .failed error =>
      judge error (rest.drop found.length) (pos + found.length) (entries + found.entries)
  tail.map (Scan.behind (locate entries pos found.spans))

theorem plainScan_eq_plainScanFrom (data : Bytes) :
    plainScan maxField data = plainScanFrom maxField data 0 0 := by
  cases hstop : (measureAll maxField data).stop with
  | atEnd => simp only [plainScan, plainScanFrom, hstop, Nat.zero_add]
  | noEntries => simp only [plainScan, plainScanFrom, hstop, Nat.zero_add]
  | failed error => simp only [plainScan, plainScanFrom, hstop, Nat.zero_add]

theorem locate_append (start pos : Nat) (spans later : List Span) :
    locate start pos (spans ++ later)
      = locate start pos spans
        ++ locate (start + total (spans.map Span.entries)) (pos + total (spans.map Span.length))
            later := by
  induction spans generalizing start pos with
  | nil => rfl
  | cons span spans ih =>
    simp only [List.cons_append, locate, ih, List.map_cons, total_cons, Nat.add_assoc]

theorem map_behind_behind (front later : List Location) (scan : Except (Nat × Damage) Scan) :
    (scan.map (Scan.behind later)).map (Scan.behind front)
      = scan.map (Scan.behind (front ++ later)) := by
  cases scan with
  | error e => rfl
  | ok scan => simp only [Except.map, Scan.behind, List.append_assoc]

/-- A walk that has found frames and goes on behind them. -/
theorem plainScanFrom_of_behind {rest : Bytes} {spans : List Span} {pos entries : Nat}
    (h : measureAll maxField rest
      = (measureAll maxField (rest.drop (total (spans.map Span.length)))).behind spans) :
    plainScanFrom maxField rest pos entries
      = (plainScanFrom maxField (rest.drop (total (spans.map Span.length)))
          (pos + total (spans.map Span.length)) (entries + total (spans.map Span.entries))).map
          (Scan.behind (locate entries pos spans)) := by
  simp only [plainScanFrom]
  rw [map_behind_behind, ← locate_append, h, Measured.length_behind, Measured.entries_behind,
    ← List.drop_drop]
  simp only [Nat.add_assoc]
  rfl

/-- A walk that has run out of its window goes on behind the frames that the window showed. -/
theorem plainScanFrom_of_window (window : Nat) (rest : Bytes) (pos entries : Nat) :
    (plainScanFrom maxField (rest.drop (measureAll maxField (rest.take window)).length)
        (pos + (measureAll maxField (rest.take window)).length)
        (entries + (measureAll maxField (rest.take window)).entries)).map
        (Scan.behind (locate entries pos (measureAll maxField (rest.take window)).spans))
      = plainScanFrom maxField rest pos entries := by
  have happend := measureAll_append maxField (rest.take window) (rest.drop window)
  rw [List.take_append_drop] at happend
  exact (plainScanFrom_of_behind happend).symm

/-- A verdict that a window settles is the verdict on the whole. -/
theorem measureAll_eq_of_window {window : Nat} {rest : Bytes}
    (hend : (measureAll maxField (rest.take window)).stop ≠ .atEnd)
    (hmore : ∀ available,
      (measureAll maxField (rest.take window)).stop ≠ .failed (.incomplete available)) :
    measureAll maxField (rest.take window) = measureAll maxField rest := by
  have hsettled := measureAll_append_of_settled hend hmore (rest.drop window)
  rw [List.take_append_drop] at hsettled
  exact hsettled.symm

/-- Zeros are found through windows where they are found at once. -/
theorem zeroFilled_eq_allZero (window : Nat) (hwindow : 0 < window) (rest : Bytes) :
    zeroFilled window hwindow rest = allZero rest := by
  fun_induction zeroFilled window hwindow rest with
  | case1 => rfl
  | case2 rest _ hany =>
    obtain ⟨b, hb, hne⟩ := List.any_eq_true.1 hany
    symm
    rw [allZero, List.all_eq_false]
    exact ⟨b, List.mem_of_mem_take hb, by simpa using hne⟩
  | case3 rest _ hany ih =>
    have htake : allZero (rest.take window) = true := by
      rw [allZero, List.all_eq_true]
      intro b hb
      have hzero := List.any_eq_false.1 (Bool.not_eq_true _ ▸ hany) b hb
      simpa using hzero
    have hsplit : allZero rest = (allZero (rest.take window) && allZero (rest.drop window)) := by
      simp only [allZero, ← List.all_append, List.take_append_drop]
    rw [ih, hsplit, htake, Bool.true_and]

theorem judgeWindows_eq_judge {error : Frame.Error}
    (herror : ∀ available, error ≠ .incomplete available) (window : Nat) (hwindow : 0 < window)
    (rest : Bytes) (pos entries : Nat) :
    judgeWindows window hwindow error rest pos entries = judge error rest pos entries := by
  unfold judgeWindows judge
  rw [zeroFilled_eq_allZero]
  cases error with
  | incomplete available => exact absurd rfl (herror available)
  | _ => rfl

theorem scanWindows_eq_plainScanFrom (base : Nat) (hbase : 0 < base) (window : Nat)
    (hwindow : 0 < window) (rest : Bytes) (pos entries : Nat) :
    scanWindows maxField base hbase window hwindow rest pos entries
      = plainScanFrom maxField rest pos entries := by
  fun_induction scanWindows maxField base hbase window hwindow rest pos entries with
  | case1 => simp [plainScanFrom, measureAll_nil, Measured.length, Measured.entries, locate,
      Scan.behind, Except.map]
  -- where the window settles the verdict the whole has the same; where it ends, the scan goes on
  -- behind it
  | case2 window _ rest pos entries _ found _ hstop =>
    have hall : found = measureAll maxField rest :=
      measureAll_eq_of_window (by rw [hstop]; simp) (by rw [hstop]; simp)
    simp only [plainScanFrom, ← hall, hstop, Except.map]
    rfl
  | case3 window _ rest pos entries _ found _ _ _ _ reachesEnd _ hstop hend =>
    have hwhole : rest.take window = rest := by
      simp only [reachesEnd, List.isEmpty_iff, List.drop_eq_nil_iff] at hend
      exact List.take_of_length_le hend
    have hall : found = measureAll maxField rest := by simp only [found, hwhole]
    simp only [plainScanFrom, ← hall, hstop]
    rfl
  | case4 _ _ _ _ _ _ _ _ _ _ _ _ ih => exact ih
  | case5 window _ rest pos entries _ _ _ _ _ _ _ _ _ _ _ ih =>
    rw [ih]
    exact plainScanFrom_of_window window rest pos entries
  | case6 window _ rest pos entries _ found _ _ _ _ _ hmore hstop =>
    have hall : found = measureAll maxField rest :=
      measureAll_eq_of_window (by rw [hstop]; simp)
        (fun available h => hmore available (Stop.failed.inj (hstop.symm.trans h)))
    simp only [plainScanFrom, ← hall, hstop, judgeWindows_eq_judge hmore]
    rfl
  | case7 window _ rest pos entries _ _ _ _ _ _ _ ih =>
    rw [ih]
    exact plainScanFrom_of_window window rest pos entries

/-- **Windows make no difference to a scan.** -/
theorem scan_eq_plainScan (maxField maxWindow : Nat) (data : Bytes) :
    scan maxField maxWindow data = plainScan maxField data := by
  unfold scan
  rw [scanWindows_eq_plainScanFrom, plainScan_eq_plainScanFrom]

end CommitLog.Partition
