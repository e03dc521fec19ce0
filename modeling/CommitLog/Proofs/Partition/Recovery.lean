import CommitLog.Proofs.Partition.Walk

/-!
# What a scan finds behind a crash

A partition file is a row of stored frames, and a crash may have left something behind them: the
front of one more frame, or zeros that stand where data never arrived. `scan_encodeAll_append`
says that a scan finds the frames, each in its place, and that the rest of its verdict is about
what is left over. `scan_of_leftover` says what that verdict is.

Both kinds of leftover come to the same end on different ways. A frame that is cut short runs out
of data, and so do fewer than four zeros. More zeros are no frame at all, and pass only because
nothing else follows.
-/

namespace CommitLog.Partition

open CommitLog.Frame (Span IsCommit)

variable {maxField : Nat}

/-! ## Rows of frames -/

/-- Frames as they are stored, one behind the other. -/
def encodeAll (frames : List Frame) : Bytes := frames.flatMap Frame.encode

/-- How many entries frames hold. -/
def entryCount (frames : List Frame) : Nat :=
  total (frames.map fun frame => frame.entries.length)

/-- Where each of a row of frames lies, when the first stands at the front of the file. -/
def locations (frames : List Frame) : List Location := locate 0 0 (frames.map Frame.span)

@[simp] theorem encodeAll_nil : encodeAll [] = [] := rfl

@[simp] theorem encodeAll_append (front later : List Frame) :
    encodeAll (front ++ later) = encodeAll front ++ encodeAll later := List.flatMap_append

@[simp] theorem encodeAll_cons (frame : Frame) (later : List Frame) :
    encodeAll (frame :: later) = frame.encode ++ encodeAll later := List.flatMap_cons

@[simp] theorem entryCount_nil : entryCount [] = 0 := rfl

@[simp] theorem entryCount_append (front later : List Frame) :
    entryCount (front ++ later) = entryCount front + entryCount later := by
  simp only [entryCount, List.map_append, total_append]

@[simp] theorem entryCount_cons (frame : Frame) (later : List Frame) :
    entryCount (frame :: later) = frame.entries.length + entryCount later := rfl

theorem encodeAll_eq_nil {frames : List Frame} (h : encodeAll frames = []) : frames = [] := by
  cases frames with
  | nil => rfl
  | cons frame later =>
    have hpos := Frame.length_encode_pos frame
    have hlength := congrArg List.length h
    rw [encodeAll_cons, List.length_append, List.length_nil] at hlength
    omega

theorem total_span_length (frames : List Frame) :
    total ((frames.map Frame.span).map Span.length) = (encodeAll frames).length := by
  induction frames with
  | nil => rfl
  | cons frame later ih =>
    rw [List.map_cons, List.map_cons, total_cons, ih, encodeAll_cons, List.length_append]
    rfl

theorem total_span_entries (frames : List Frame) :
    total ((frames.map Frame.span).map Span.entries) = entryCount frames := by
  rw [List.map_map]
  rfl

/-- Every entry takes some room. -/
theorem entryCount_le_length (frames : List Frame) :
    entryCount frames ≤ (encodeAll frames).length := by
  have hfields : ∀ fields : List Bytes,
      fields.length ≤ (fields.flatMap Frame.encodeField).length := by
    intro fields
    induction fields with
    | nil => simp
    | cons field later ih =>
      rw [List.flatMap_cons, List.length_append, Frame.length_encodeField, List.length_cons]
      have hword : Frame.wordSize = 4 := rfl
      omega
  induction frames with
  | nil => simp
  | cons frame later ih =>
    have hframe := hfields (frame.key :: frame.entries)
    rw [List.length_cons] at hframe
    rw [entryCount_cons, encodeAll_cons, List.length_append, Frame.length_encode_eq]
    omega

theorem length_locate (start pos : Nat) (spans : List Span) :
    (locate start pos spans).length = spans.length := by
  induction spans generalizing start pos with
  | nil => rfl
  | cons span later ih => simp only [locate, List.length_cons, ih]

theorem locations_append (front later : List Frame) :
    locations (front ++ later)
      = locations front
        ++ locate (entryCount front) (encodeAll front).length (later.map Frame.span) := by
  rw [locations, List.map_append, locate_append, total_span_entries, total_span_length]
  simp only [locations, Nat.zero_add]

/-- The location at an index tells what comes before the frame, and its room. -/
theorem getElem?_locations (frames : List Frame) (k : Nat) :
    (locations frames)[k]? = frames[k]?.map fun frame =>
      ⟨entryCount (frames.take k), (encodeAll (frames.take k)).length, frame.encode.length,
        frame.entries.length⟩ := by
  rcases Nat.lt_or_ge k frames.length with hk | hk
  · have hsplit : frames = frames.take k ++ frames[k] :: frames.drop (k + 1) := by
      rw [List.getElem_cons_drop, List.take_append_drop]
    have hlen : (locations (frames.take k)).length = k := by
      unfold locations
      rw [length_locate, List.length_map, List.length_take]
      omega
    rw [List.getElem?_eq_getElem hk, Option.map_some]
    conv => lhs; rw [hsplit]
    rw [locations_append, List.map_cons, List.getElem?_append_right (by omega), hlen,
      Nat.sub_self]
    rfl
  · rw [List.getElem?_eq_none hk, Option.map_none, List.getElem?_eq_none]
    unfold locations
    rw [length_locate, List.length_map]
    exact hk

/-! ## Scanning a row of frames -/

/-- The walk passes over a stored commit. -/
theorem measureAll_encode {frame : Frame} (h : frame.IsCommit maxField) (later : Bytes) :
    measureAll maxField (frame.encode ++ later)
      = (measureAll maxField later).behind [frame.span] := by
  have hentries : frame.span.entries ≠ 0 := by
    simpa only [Frame.span, ne_eq, List.length_eq_zero_iff] using h.entries_ne
  rw [measureAll_of_ok (Frame.measure_encode h.fits later), if_neg hentries]
  have hdrop : (frame.encode ++ later).drop frame.span.length = later :=
    List.drop_left' rfl
  rw [hdrop]

theorem measureAll_encodeAll (rest : Bytes) : ∀ (frames : List Frame),
    (∀ frame ∈ frames, frame.IsCommit maxField) →
    measureAll maxField (encodeAll frames ++ rest)
      = (measureAll maxField rest).behind (frames.map Frame.span) := by
  intro frames
  induction frames with
  | nil => intro _; rfl
  | cons frame later ih =>
    intro h
    rw [encodeAll_cons, List.append_assoc, measureAll_encode (h frame List.mem_cons_self),
      ih (fun x hx => h x (List.mem_cons_of_mem _ hx))]
    rfl

/-- **A scan finds every stored frame in its place, and goes on to judge what is behind them.** -/
theorem scan_encodeAll_append {frames : List Frame}
    (h : ∀ frame ∈ frames, frame.IsCommit maxField) (maxWindow : Nat) (rest : Bytes) :
    scan maxField maxWindow (encodeAll frames ++ rest)
      = (plainScanFrom maxField rest (encodeAll frames).length (entryCount frames)).map
          (Scan.behind (locations frames)) := by
  have hdrop : (encodeAll frames ++ rest).drop
      (total ((frames.map Frame.span).map Span.length)) = rest := by
    rw [total_span_length]
    exact List.drop_left' rfl
  have hwalk : measureAll maxField (encodeAll frames ++ rest)
      = (measureAll maxField ((encodeAll frames ++ rest).drop
          (total ((frames.map Frame.span).map Span.length)))).behind (frames.map Frame.span) := by
    rw [hdrop]
    exact measureAll_encodeAll rest frames h
  rw [scan_eq_plainScan, plainScan_eq_plainScanFrom, plainScanFrom_of_behind hwalk, hdrop,
    total_span_length, total_span_entries, Nat.zero_add, Nat.zero_add]
  rfl

/-- A row of stored frames with nothing behind it scans as what it is. -/
theorem scan_encodeAll {frames : List Frame} (h : ∀ frame ∈ frames, frame.IsCommit maxField)
    (maxWindow : Nat) :
    scan maxField maxWindow (encodeAll frames)
      = .ok ⟨locations frames, (encodeAll frames).length, entryCount frames, none⟩ := by
  have hscan := scan_encodeAll_append h maxWindow []
  rw [List.append_nil] at hscan
  rw [hscan, plainScanFrom, measureAll_nil]
  simp [Measured.length, Measured.entries, locate, Scan.behind, Except.map]

/-! ## What a crash leaves behind -/

/-- What a crash may leave behind the whole frames of a file. -/
inductive Leftover (maxField : Nat) : Bytes → Prop where
  /-- The front of one more frame, without its last byte at least. -/
  | cutShort {frame : Frame} (h : frame.IsCommit maxField) {k : Nat}
      (hk : k < frame.encode.length) : Leftover maxField (frame.encode.take k)
  /-- Zeros where data never arrived. -/
  | zeros (count : Nat) : Leftover maxField (List.replicate count 0)

theorem plainScanFrom_of_error {rest : Bytes} (hrest : rest ≠ []) {e : Frame.Error}
    (h : Frame.measure maxField rest = .error e) (pos entries : Nat) :
    plainScanFrom maxField rest pos entries = judge e rest pos entries := by
  unfold plainScanFrom
  rw [measureAll_of_error hrest h]
  simp only [Measured.length, Measured.entries, List.map_nil, total_nil, Nat.add_zero,
    List.drop_zero, locate]
  cases judge e rest pos entries with
  | error e => rfl
  | ok scan => rfl

theorem measure_replicate_zero (maxField count : Nat) :
    Frame.measure maxField (List.replicate count 0)
      = if count < 4 then .error (.incomplete count) else .error (.badDelimiter 0) := by
  split
  next h =>
    rw [Frame.measure_of_length_lt (by simpa [Frame.wordSize] using h), List.length_replicate]
  next h =>
    have hsplit : List.replicate count (0 : UInt8)
        = Bytes.ofUInt32 0 ++ List.replicate (count - 4) 0 := by
      have hfour : Bytes.ofUInt32 0 = List.replicate 4 (0 : UInt8) := by decide
      rw [hfour, List.replicate_append_replicate]
      congr 1
      omega
    have hne : (0 : UInt32) ≠ Frame.delimiter := by decide
    simp only [Frame.measure, Bytes.readUInt32?_eq_some_iff.2 hsplit, ne_eq, hne,
      not_false_eq_true, if_true]

theorem judge_of_ne_incomplete {e : Frame.Error} (h : ∀ available, e ≠ .incomplete available)
    (rest : Bytes) (pos entries : Nat) :
    judge e rest pos entries
      = if allZero rest then .ok ⟨[], pos, entries, some (.zeros rest.length pos)⟩
        else .error (pos, .frame e) := by
  cases e with
  | incomplete available => exact absurd rfl (h available)
  | badDelimiter => rfl
  | missingKey => rfl
  | fieldTooLarge => rfl

theorem allZero_replicate (count : Nat) : allZero (List.replicate count 0) = true := by
  simp [allZero]

/-- What a crash has left behind makes the scan torn, unless it is nothing. -/
theorem plainScanFrom_of_leftover {leftover : Bytes} (h : Leftover maxField leftover)
    (pos entries : Nat) :
    ∃ torn, plainScanFrom maxField leftover pos entries = .ok ⟨[], pos, entries, torn⟩ ∧
      (torn.isSome ↔ leftover ≠ []) := by
  by_cases hempty : leftover = []
  · subst hempty
    refine ⟨none, ?_, by simp⟩
    simp [plainScanFrom, measureAll_nil, Measured.length, Measured.entries, locate, Scan.behind,
      Except.map]
  · cases h with
    | cutShort hframe hk =>
      have hm := Frame.measure_take_of_lt hframe.fits hk
      exact ⟨_, plainScanFrom_of_error hempty hm pos entries, by simpa using hempty⟩
    -- up to three zeros could be the front of a delimiter, more cannot
    | zeros count =>
      have hm := measure_replicate_zero maxField count
      by_cases hcount : count < 4
      · rw [if_pos hcount] at hm
        exact ⟨_, plainScanFrom_of_error hempty hm pos entries, by simpa using hempty⟩
      · rw [if_neg hcount] at hm
        rw [plainScanFrom_of_error hempty hm, judge_of_ne_incomplete (by simp),
          if_pos (allZero_replicate count)]
        exact ⟨_, rfl, by simpa using hempty⟩

/-- **A scan keeps exactly the whole frames**, and is torn exactly if something is left behind
them. -/
theorem scan_of_leftover {frames : List Frame} {leftover : Bytes}
    (h : ∀ frame ∈ frames, frame.IsCommit maxField) (hleft : Leftover maxField leftover)
    (maxWindow : Nat) :
    ∃ torn, scan maxField maxWindow (encodeAll frames ++ leftover)
        = .ok ⟨locations frames, (encodeAll frames).length, entryCount frames, torn⟩ ∧
      (torn.isSome ↔ leftover ≠ []) := by
  obtain ⟨torn, hscan, htorn⟩ :=
    plainScanFrom_of_leftover hleft (encodeAll frames).length (entryCount frames)
  refine ⟨torn, ?_, htorn⟩
  rw [scan_encodeAll_append h, hscan]
  simp [Except.map, Scan.behind]

end CommitLog.Partition
