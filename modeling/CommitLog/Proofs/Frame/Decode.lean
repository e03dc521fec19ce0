import CommitLog.Proofs.Frame.Measure

/-!
# Only stored frames decode

A stored frame decodes to itself, whatever follows it (`decode_encode_append`). Measuring says how
much room it takes; the fields are read a second time for their contents.

In the other direction, data that decodes begins with the stored form of the frame that comes out
(`decode_eq_ok_iff`). The two readings of the fields agree because measuring already finds the frame
that the data begins with, and what is decoded can only be that frame.

A walk goes from frame to frame by their room, so over a row of stored frames it meets each of
them where the ones in front of it end (`walkFrom_encode`).
-/

namespace CommitLog.Frame

variable {maxField : Nat}

/-! ## Stored frames -/

theorem readHeader?_encodeHeader (id : Identifier) (timestamp : UInt64) (rest : Bytes) :
    readHeader? (encodeHeader id timestamp ++ rest) = some (id, timestamp, rest) := by
  simp only [readHeader?, encodeHeader, List.append_assoc, Bytes.readUInt32?_ofUInt32,
    Bytes.readUInt64?_ofUInt64, Option.bind_eq_bind, Option.bind_some, Option.pure_def]

/-- Fields with the closing delimiter behind read back as they were written. -/
theorem readFields?_encode (later : Bytes) : ∀ (fields : List Bytes),
    (∀ field ∈ fields, field.length ≤ maxFieldLength) →
    readFields? (fields.flatMap encodeField ++ (Bytes.ofUInt32 delimiter ++ later))
      = some fields := by
  intro fields
  induction fields with
  | nil =>
    intro _
    rw [List.flatMap_nil, List.nil_append, readFields?]
    split
    next h => simp at h
    next h =>
      simp only [Bytes.readUInt32?_ofUInt32, Option.some.injEq, Prod.mk.injEq] at h
      rw [if_pos h.1.symm]
  | cons field fields ih =>
    intro h
    have hfield : field.length ≤ maxFieldLength := h field List.mem_cons_self
    rw [List.flatMap_cons, encodeField, List.append_assoc, List.append_assoc, readFields?]
    split
    next h => simp at h
    next h' =>
      simp only [Bytes.readUInt32?_ofUInt32, Option.some.injEq, Prod.mk.injEq] at h'
      obtain ⟨rfl, rfl⟩ := h'
      rw [if_neg (ofNat_length_ne_delimiter hfield)]
      split
      next hsplit =>
        rw [toNat_ofNat_length hfield, Bytes.split?_append] at hsplit
        simp at hsplit
      next hsplit =>
        rw [toNat_ofNat_length hfield, Bytes.split?_append] at hsplit
        simp only [Option.some.injEq, Prod.mk.injEq] at hsplit
        obtain ⟨rfl, rfl⟩ := hsplit
        rw [ih (fun x hx => h x (List.mem_cons_of_mem _ hx)), Option.map_some]

/-- **A stored frame decodes to itself, whatever follows.** -/
theorem decode_encode_append {frame : Frame} (h : frame.Fits maxField)
    (later : Bytes) : decode maxField (frame.encode ++ later) = .ok (frame, frame.span) := by
  have hfields := readFields?_encode later (frame.key :: frame.entries)
    (fun field hf => Nat.le_trans (h field hf) (Nat.min_le_right _ _))
  unfold decode
  rw [measure_encode h, encode_append, readHeader?_encodeHeader]
  simp only [bind, Except.bind, hfields]
  rfl

/-! ## Decoding -/

/-- What is decoded has been measured. -/
theorem measure_of_decode {data : Bytes} {frame : Frame} {found : Span}
    (h : decode maxField data = .ok (frame, found)) : measure maxField data = .ok found := by
  unfold decode at h
  cases hm : measure maxField data with
  | error e =>
    rw [hm] at h
    simp [bind, Except.bind] at h
  | ok measured =>
    rw [hm] at h
    simp only [bind, Except.bind] at h
    split at h
    next =>
      split at h
      next =>
        split at h
        next => exact absurd h (by simp [throw, throwThe, MonadExceptOf.throw])
        next =>
          simp only [pure, Except.pure, Except.ok.injEq, Prod.mk.injEq] at h
          rw [h.2]
      next => exact absurd h (by simp [throw, throwThe, MonadExceptOf.throw])
    next => exact absurd h (by simp [throw, throwThe, MonadExceptOf.throw])

/-- **Data decodes exactly where it begins with a stored frame that fits, and to that frame.** -/
theorem decode_eq_ok_iff {data : Bytes} {frame : Frame} {found : Span} :
    decode maxField data = .ok (frame, found) ↔
      ∃ later, frame.Fits maxField ∧ data = frame.encode ++ later ∧ found = frame.span := by
  constructor
  · intro h
    obtain ⟨stored, later, hfits, rfl, rfl⟩ := measure_eq_ok_iff.1 (measure_of_decode h)
    rw [decode_encode_append hfits] at h
    obtain ⟨rfl, -⟩ := Prod.mk.inj (Except.ok.inj h)
    exact ⟨later, hfits, rfl, rfl⟩
  · rintro ⟨later, hfits, rfl, rfl⟩
    exact decode_encode_append hfits later

/-! ## Walking -/

/-- Frames in a row as a walk meets them, the first one at `pos`. -/
def metFrom : Nat → List Frame → List Found
  | _, [] => []
  | pos, frame :: later => ⟨pos, frame.span, frame⟩ :: metFrom (pos + frame.encode.length) later

@[simp] theorem map_frame_metFrom (pos : Nat) (frames : List Frame) :
    (metFrom pos frames).map Found.frame = frames := by
  induction frames generalizing pos with
  | nil => rfl
  | cons frame later ih => simp [metFrom, ih]

/-- The walk meets a row of stored frames one after another and ends behind the last one. -/
theorem walkFrom_encode (frames : List Frame) (hfits : ∀ frame ∈ frames, frame.Fits maxField) :
    ∀ (fuel pos : Nat), (frames.flatMap encode).length ≤ fuel →
      walkFrom maxField fuel (frames.flatMap encode) pos
        = ⟨metFrom pos frames, pos + (frames.flatMap encode).length, none⟩ := by
  induction frames with
  | nil =>
    intro fuel pos _
    cases fuel <;> rfl
  | cons frame later ih =>
    intro fuel pos hfuel
    have hpos := length_encode_pos frame
    rw [List.flatMap_cons, List.length_append] at hfuel ⊢
    obtain ⟨fuel, rfl⟩ : ∃ n, fuel = n + 1 := ⟨fuel - 1, by omega⟩
    have hne : frame.encode ++ later.flatMap encode ≠ [] := by
      intro h
      rw [List.append_eq_nil_iff] at h
      simp [h.1] at hpos
    have hdecode := decode_encode_append (hfits frame List.mem_cons_self) (later.flatMap encode)
    rw [walkFrom, if_neg (by simpa using hne)]
    simp only [hdecode]
    rw [span, List.drop_left, ih (fun x hx => hfits x (List.mem_cons_of_mem _ hx)) _ _ (by omega)]
    simp only [metFrom, span, Nat.add_assoc]

/-! ## Both directions -/

/-- **A frame decodes to what was stored, and only stored frames decode.** A frame whose fields keep
to the limit decodes to itself in front of any data, and its room is what its fields take; whatever
decodes begins with the stored form of what comes out; and a walk over a row of stored frames meets
these frames, each where the one in front of it ends, and nothing else. -/
theorem decodes_exactly_what_is_stored (maxField : Nat) :
    (∀ (frame : Frame) (later : Bytes),
      (∀ field ∈ frame.key :: frame.entries, field.length ≤ min maxField maxFieldLength) →
      decode maxField (frame.encode ++ later)
          = .ok (frame, ⟨frame.encode.length, frame.entries.length⟩) ∧
        frame.encode.length = encodedLength frame.key frame.entries) ∧
    (∀ (data : Bytes) (frame : Frame) (found : Span),
      decode maxField data = .ok (frame, found) →
      data.take found.length = frame.encode ∧
        found = ⟨frame.encode.length, frame.entries.length⟩) ∧
    (∀ frames : List Frame,
      (∀ frame ∈ frames, ∀ field ∈ frame.key :: frame.entries,
        field.length ≤ min maxField maxFieldLength) →
      walk maxField (frames.flatMap encode)
          = ⟨metFrom 0 frames, (frames.flatMap encode).length, none⟩ ∧
        (walk maxField (frames.flatMap encode)).frames.map Found.frame = frames) := by
  refine ⟨fun frame later hfits => ⟨decode_encode_append hfits later, length_encode frame⟩, ?_, ?_⟩
  · intro data frame found h
    obtain ⟨later, -, rfl, rfl⟩ := decode_eq_ok_iff.1 h
    exact ⟨List.take_left, rfl⟩
  · intro frames hfits
    have hwalk : walk maxField (frames.flatMap encode)
        = ⟨metFrom 0 frames, (frames.flatMap encode).length, none⟩ := by
      rw [walk, walkFrom_encode frames hfits _ _ (Nat.le_refl _), Nat.zero_add]
    exact ⟨hwalk, by rw [hwalk, map_frame_metFrom]⟩

/-- An empty key, an entry that reads like the end of a frame, an empty entry, and behind the frame
a byte that the next one might begin with; then two such frames in a row. -/
theorem decodes_exactly_what_is_stored_of_delimiter_inside :
    (∀ field ∈ [[], Bytes.ofUInt32 delimiter, []], field.length ≤ min 4 maxFieldLength) ∧
      decode 4 (encode ⟨⟨1, 2⟩, 3, [], [Bytes.ofUInt32 delimiter, []]⟩ ++ [0xDE])
        = .ok (⟨⟨1, 2⟩, 3, [], [Bytes.ofUInt32 delimiter, []]⟩, ⟨48, 2⟩) ∧
      (encode ⟨⟨1, 2⟩, 3, [], [Bytes.ofUInt32 delimiter, []]⟩ ++ [0xDE]).take 48
        = encode ⟨⟨1, 2⟩, 3, [], [Bytes.ofUInt32 delimiter, []]⟩ ∧
      (walk 4 ([⟨⟨1, 2⟩, 3, [], [Bytes.ofUInt32 delimiter, []]⟩,
          ⟨⟨1, 2⟩, 3, [], [Bytes.ofUInt32 delimiter, []]⟩].flatMap encode)).frames.map Found.pos
        = [0, 48] := by
  have hfits : ∀ field ∈ [[], Bytes.ofUInt32 delimiter, []],
      field.length ≤ min 4 maxFieldLength := by decide
  have hdecode := ((decodes_exactly_what_is_stored 4).1
    ⟨⟨1, 2⟩, 3, [], [Bytes.ofUInt32 delimiter, []]⟩ [0xDE] hfits).1
  have hwalk := (decodes_exactly_what_is_stored 4).2.2
    [⟨⟨1, 2⟩, 3, [], [Bytes.ofUInt32 delimiter, []]⟩,
      ⟨⟨1, 2⟩, 3, [], [Bytes.ofUInt32 delimiter, []]⟩] (by simpa using hfits)
  refine ⟨hfits, hdecode, ((decodes_exactly_what_is_stored 4).2.1 _ _ _ hdecode).1, ?_⟩
  rw [hwalk.1]
  rfl

end CommitLog.Frame
