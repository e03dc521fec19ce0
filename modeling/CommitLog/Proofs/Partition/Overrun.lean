import CommitLog.Proofs.Partition.Recovery

/-!
# Damage that reads as a torn write

A scan tells a torn last write from damage by one thing only: whether the data ran out. Damage in
front of the last frame can make it run out as well. A length that was overwritten with a larger
one may send the walk past the end of the file, however many whole frames lie in between.

`Overrun` says when the data runs out inside a frame, without measuring it, and `EndsInOverrun` that
it does so behind a row of commits. This is the exact condition (`scan_of_damage`): damage in front
of an untouched last frame makes the scan torn if and only if the file ends in an overrun. In every
other case the scan comes to the end of the file or reports damage.
-/

namespace CommitLog.Frame

/-- The fields at the front of the data run past its end. -/
inductive FieldsOverrun (limit : Nat) : Bytes → Prop where
  /-- There is no room for the next length. -/
  | noLength {rest : Bytes} (h : rest.length < wordSize) : FieldsOverrun limit rest
  /-- A length that is allowed announces more bytes than there are. -/
  | noBody {length : UInt32} {body : Bytes} (hne : length ≠ delimiter)
      (hle : length.toNat ≤ limit) (hcut : body.length < length.toNat) :
      FieldsOverrun limit (Bytes.ofUInt32 length ++ body)
  /-- Behind a whole field. -/
  | later {field rest : Bytes} (hfield : field.length ≤ limit) (h : FieldsOverrun limit rest) :
      FieldsOverrun limit (encodeField field ++ rest)

/-- The frame at the front of the data runs past its end. -/
inductive Overrun (maxField : Nat) : Bytes → Prop where
  /-- There is no room for the delimiter. -/
  | noDelimiter {data : Bytes} (h : data.length < wordSize) : Overrun maxField data
  /-- There is no room for the header. -/
  | noHeader {later : Bytes} (h : wordSize + later.length < headerSize) :
      Overrun maxField (Bytes.ofUInt32 delimiter ++ later)
  /-- The fields behind the header run past the end. -/
  | fields {id : Identifier} {timestamp : UInt64} {rest : Bytes}
      (h : FieldsOverrun (min maxField maxFieldLength) rest) :
      Overrun maxField (encodeHeader id timestamp ++ rest)

theorem measureFields_of_overrun {limit : Nat} (hlimit : limit ≤ maxFieldLength) {rest : Bytes}
    (h : FieldsOverrun limit rest) (whole : Bytes) (pos count : Nat) :
    measureFields limit whole rest pos count = .error (.incomplete whole.length) := by
  induction h generalizing pos count with
  | noLength h => exact measureFields_of_length_lt h whole pos count
  | noBody hne hle hcut => exact measureFields_of_field_cut hne hle hcut whole pos count
  | later hfield _ ih =>
    rw [measureFields_field hlimit hfield]
    exact ih _ _

theorem overrun_of_measureFields {limit : Nat} {whole rest : Bytes} {pos count available : Nat}
    (h : measureFields limit whole rest pos count = .error (.incomplete available)) :
    FieldsOverrun limit rest := by
  fun_induction measureFields limit whole rest pos count with
  | case1 rest pos count hword => exact .noLength (Bytes.readUInt32?_eq_none_iff.1 hword)
  | case2 => simp at h
  | case3 => simp at h
  | case4 rest pos count length body hword hne hle hbody =>
    rw [Bytes.readUInt32?_eq_some_iff.1 hword]
    rw [Bytes.split?_eq] at hbody
    refine .noBody hne (by omega) ?_
    by_cases hlen : length.toNat ≤ body.length
    · rw [if_pos hlen] at hbody
      simp at hbody
    · omega
  | case5 rest pos count length body hword hne hle field next hbody ih =>
    obtain ⟨rfl, hlen⟩ := Bytes.split?_eq_some_iff.1 hbody
    have hfield : Bytes.ofUInt32 length ++ field = encodeField field := by
      unfold encodeField
      rw [hlen]
      simp
    rw [Bytes.readUInt32?_eq_some_iff.1 hword, ← List.append_assoc, hfield]
    exact .later (by omega) (ih h)

/-- **Data measures as incomplete exactly where it runs out inside a frame.** -/
theorem overrun_of_measure {maxField : Nat} {data : Bytes} {available : Nat}
    (h : measure maxField data = .error (.incomplete available)) : Overrun maxField data := by
  cases hword : Bytes.readUInt32? data with
  | none => exact .noDelimiter (Bytes.readUInt32?_eq_none_iff.1 hword)
  | some found =>
    obtain ⟨word, body⟩ := found
    by_cases hdelim : word = delimiter
    · subst hdelim
      cases hsplit : Bytes.split? headerSize data with
      | none =>
        have hdata := Bytes.readUInt32?_eq_some_iff.1 hword
        rw [hdata]
        refine .noHeader ?_
        rw [hdata, Bytes.split?_eq, List.length_append, Bytes.length_ofUInt32] at hsplit
        by_cases hlen : headerSize ≤ 4 + body.length
        · rw [if_pos hlen] at hsplit
          simp at hsplit
        · simp only [wordSize]
          omega
      | some cut =>
        obtain ⟨id, timestamp, rfl⟩ := exists_header_of_split? hword hsplit
        rw [measure_header] at h
        split at h
        next hfields =>
          obtain rfl := Except.error.inj h
          exact .fields (overrun_of_measureFields hfields)
        next => simp at h
        next => simp at h
    · simp only [measure, hword, ne_eq, hdelim, not_false_eq_true, if_true] at h
      simp at h

theorem measure_of_overrun {maxField : Nat} {data : Bytes} (h : Overrun maxField data) :
    ∃ available, measure maxField data = .error (.incomplete available) := by
  cases h with
  | noDelimiter h => exact ⟨_, measure_of_length_lt h⟩
  | @noHeader later hlen =>
    have hsplit : Bytes.split? headerSize (Bytes.ofUInt32 delimiter ++ later) = none := by
      rw [Bytes.split?_eq, if_neg]
      rw [List.length_append, Bytes.length_ofUInt32]
      simp only [wordSize] at hlen
      omega
    refine ⟨(Bytes.ofUInt32 delimiter ++ later).length, ?_⟩
    simp only [measure, Bytes.readUInt32?_ofUInt32, hsplit, ne_eq, not_true_eq_false, if_false]
  | @fields id timestamp rest h =>
    refine ⟨(encodeHeader id timestamp ++ rest).length, ?_⟩
    rw [measure_header, measureFields_of_overrun (Nat.min_le_right _ _) h]

end CommitLog.Frame

namespace CommitLog.Partition

open CommitLog.Frame (IsCommit Overrun)

variable {maxField : Nat}

/-! ## Where a walk stops -/

/-- A walk finds stored commits, and stops at what is behind them. -/
theorem exists_frames_of_measureAll (maxField : Nat) (data : Bytes) :
    ∃ frames rest, (∀ frame ∈ frames, IsCommit maxField frame) ∧
      data = encodeAll frames ++ rest ∧
      measureAll maxField data = (measureAll maxField rest).behind (frames.map Frame.span) ∧
      (measureAll maxField rest).spans = [] := by
  fun_induction measureAll maxField data with
  | case1 data hdata =>
    refine ⟨[], data, by simp, rfl, ?_, ?_⟩
    · rw [List.isEmpty_iff.1 hdata, measureAll_nil]
      rfl
    · rw [List.isEmpty_iff.1 hdata, measureAll_nil]
  | case2 data hdata e hm =>
    have hall := measureAll_of_error (by simpa using hdata) hm
    exact ⟨[], data, by simp, rfl, by rw [hall]; rfl, by rw [hall]⟩
  | case3 data hdata span hm hentries =>
    have hall := measureAll_of_ok hm
    rw [if_pos hentries] at hall
    exact ⟨[], data, by simp, rfl, by rw [hall]; rfl, by rw [hall]⟩
  | case4 data hdata span hm hentries later ih =>
    obtain ⟨frame, next, hfits, rfl, rfl⟩ := Frame.measure_eq_ok_iff.1 hm
    obtain ⟨frames, rest, hframes, hnext, hwalk, hspans⟩ := ih
    have hdrop : (frame.encode ++ next).drop frame.span.length = next := List.drop_left' rfl
    rw [hdrop] at hnext
    have hcommit : IsCommit maxField frame :=
      ⟨hfits, fun h => hentries (by rw [Frame.span, h]; rfl)⟩
    refine ⟨frame :: frames, rest, ?_, ?_, ?_, hspans⟩
    · intro x hx
      rcases List.mem_cons.1 hx with rfl | hx
      · exact hcommit
      · exact hframes x hx
    · rw [encodeAll_cons, List.append_assoc, ← hnext]
    · simp only [later, hwalk]
      rfl

/-- What a walk leaves over, when the data ends with a stored frame and is not all found. -/
theorem allZero_rest {frames : List Frame} {rest damaged : Bytes} {last : Frame}
    (hdata : damaged ++ last.encode = encodeAll frames ++ rest) (hrest : rest ≠ []) :
    allZero rest = false := by
  have hlast : (damaged ++ last.encode).getLast? = some 0xFE := by
    have hdelim : (Bytes.ofUInt32 Frame.delimiter).getLast? = some 0xFE := by decide
    simp only [Frame.encode, List.getLast?_append, hdelim, Option.some_or]
  rw [hdata, List.getLast?_append, List.getLast?_eq_some_getLast hrest, Option.some_or,
    Option.some.injEq] at hlast
  unfold allZero
  rw [List.all_eq_false]
  exact ⟨rest.getLast hrest, List.getLast_mem hrest, by rw [hlast]; decide⟩

/-! ## Damage in front of a whole frame -/

/-- The data reads as a row of commits with a frame behind them that runs past its end. -/
def EndsInOverrun (maxField : Nat) (data : Bytes) : Prop :=
  ∃ frames rest, (∀ frame ∈ frames, IsCommit maxField frame) ∧
    data = encodeAll frames ++ rest ∧ rest ≠ [] ∧ Overrun maxField rest

/-- Commits with an overrun behind them scan as torn, and the scan keeps the commits. -/
theorem scan_of_overrun {frames : List Frame} {rest : Bytes}
    (hframes : ∀ frame ∈ frames, IsCommit maxField frame) (hrest : rest ≠ [])
    (h : Overrun maxField rest) (maxWindow : Nat) :
    ∃ available, scan maxField maxWindow (encodeAll frames ++ rest)
      = .ok ⟨locations frames, (encodeAll frames).length, entryCount frames,
          some (.cutShort (encodeAll frames).length available)⟩ := by
  obtain ⟨available, hm⟩ := Frame.measure_of_overrun h
  refine ⟨available, ?_⟩
  rw [scan_encodeAll_append hframes, plainScanFrom_of_error hrest hm]
  simp [judge, Except.map, Scan.behind]

/-- A scan of damage in front of a whole frame meets an overrun, comes to the end of the file, or
fails. -/
theorem scan_cases_of_damage (maxField maxWindow : Nat) (damaged : Bytes) (last : Frame) :
    EndsInOverrun maxField (damaged ++ last.encode) ∨
      (∃ frames, (∀ frame ∈ frames, IsCommit maxField frame) ∧
        damaged ++ last.encode = encodeAll frames) ∨
      ∃ failure, scan maxField maxWindow (damaged ++ last.encode) = .error failure := by
  obtain ⟨frames, rest, hframes, hdata, -, hspans⟩ :=
    exists_frames_of_measureAll maxField (damaged ++ last.encode)
  by_cases hrest : rest = []
  · rw [hrest, List.append_nil] at hdata
    exact Or.inr (Or.inl ⟨frames, hframes, hdata⟩)
  have hscan := scan_encodeAll_append hframes maxWindow rest
  rw [← hdata] at hscan
  cases hm : Frame.measure maxField rest with
  | error e =>
    -- every verdict but running out is damage, since the data does not end in zeros
    by_cases hmore : ∃ available, e = .incomplete available
    · obtain ⟨available, rfl⟩ := hmore
      exact Or.inl ⟨frames, rest, hframes, hdata, hrest,
        Frame.overrun_of_measure hm⟩
    · refine Or.inr (Or.inr ⟨((encodeAll frames).length, .frame e), ?_⟩)
      rw [hscan, plainScanFrom_of_error hrest hm,
        judge_of_ne_incomplete (fun available h => hmore ⟨available, h⟩),
        allZero_rest hdata hrest]
      rfl
  | ok span =>
    -- the walk has stopped here, so the frame holds no entry
    have hall := measureAll_of_ok hm
    by_cases hentries : span.entries = 0
    · rw [if_pos hentries] at hall
      refine Or.inr (Or.inr ⟨((encodeAll frames).length, .noEntries), ?_⟩)
      rw [hscan, plainScanFrom, hall]
      rfl
    · rw [if_neg hentries] at hall
      rw [hall] at hspans
      simp [Measured.behind] at hspans

/-- **Damage in front of the last frame scans as torn exactly when the data ends in an overrun.**
The bytes in front of the last frame may be anything at all. A torn scan has stopped short of the
end of the last frame, and any other that does not fail has come to it. -/
theorem scan_of_damage (maxField maxWindow : Nat) (damaged : Bytes) (last : Frame) :
    (EndsInOverrun maxField (damaged ++ last.encode) ∧
      ∃ frames rest torn, damaged ++ last.encode = encodeAll frames ++ rest ∧ rest ≠ [] ∧
        scan maxField maxWindow (damaged ++ last.encode)
          = .ok ⟨locations frames, (encodeAll frames).length, entryCount frames, some torn⟩) ∨
    ¬EndsInOverrun maxField (damaged ++ last.encode) ∧
      ((∃ frames, damaged ++ last.encode = encodeAll frames ∧
        scan maxField maxWindow (damaged ++ last.encode)
          = .ok ⟨locations frames, (encodeAll frames).length, entryCount frames, none⟩) ∨
        ∃ failure, scan maxField maxWindow (damaged ++ last.encode) = .error failure) := by
  by_cases hover : EndsInOverrun maxField (damaged ++ last.encode)
  · obtain ⟨frames, rest, hframes, hdata, hrest, hcut⟩ := hover
    obtain ⟨available, hscan⟩ := scan_of_overrun hframes hrest hcut maxWindow
    exact Or.inl ⟨⟨frames, rest, hframes, hdata, hrest, hcut⟩, frames, rest, _, hdata, hrest,
      by rw [hdata, hscan]⟩
  refine Or.inr ⟨hover, ?_⟩
  rcases scan_cases_of_damage maxField maxWindow damaged last with
    hover' | ⟨frames, hframes, hdata⟩ | hfail
  · exact absurd hover' hover
  · exact Or.inl ⟨frames, hdata, by rw [hdata, scan_encodeAll hframes]⟩
  · exact Or.inr hfail

/-- Two commits of one entry each, with a length of 200 bytes written over that of the first key:
the scan keeps nothing of the file, although the second commit was not touched. -/
theorem scan_of_overwritten_length :
    ∃ (first last : Frame) (damaged : Bytes), IsCommit 4194304 first ∧ IsCommit 4194304 last ∧
      damaged.length = first.encode.length ∧
      scan 4194304 67108864 (first.encode ++ last.encode)
        = .ok ⟨locations [first, last], 84, 2, none⟩ ∧
      scan 4194304 67108864 (damaged ++ last.encode) = .ok ⟨[], 0, 0, some (.cutShort 0 84)⟩ := by
  have hone : IsCommit 4194304 ⟨⟨1, 2⟩, 3, [107], [[118]]⟩ := by decide
  have htwo : IsCommit 4194304 ⟨⟨4, 5⟩, 6, [107], [[119]]⟩ := by decide
  refine ⟨_, _, Frame.encodeHeader ⟨1, 2⟩ 3 ++ (Bytes.ofUInt32 200 ++ ([107]
      ++ Frame.encodeField [118] ++ Bytes.ofUInt32 Frame.delimiter)),
    hone, htwo, by decide, ?_, ?_⟩
  · have hboth : ∀ frame ∈ [(⟨⟨1, 2⟩, 3, [107], [[118]]⟩ : Frame),
        ⟨⟨4, 5⟩, 6, [107], [[119]]⟩], IsCommit 4194304 frame := by
      simp [hone, htwo]
    have hscan := scan_encodeAll hboth 67108864
    have hlen : (encodeAll [⟨⟨1, 2⟩, 3, [107], [[118]]⟩, ⟨⟨4, 5⟩, 6, [107], [[119]]⟩]).length
        = 84 := by decide
    rw [hlen] at hscan
    simpa using hscan
  · rw [List.append_assoc, List.append_assoc, scan_eq_plainScan, plainScan_eq_plainScanFrom,
      plainScanFrom_of_error (by simp [Frame.encodeHeader, Bytes.ofUInt32, Bytes.ofNat])
        (e := .incomplete 84)]
    · rfl
    · rw [Frame.measure_header,
        Frame.measureFields_of_field_cut (by decide) (by decide) (by decide)]
      rfl

end CommitLog.Partition
