import CommitLog.Proofs.Frame.Decode

/-!
# More data and less of it

A verdict on data is a verdict on its front. Only "incomplete" asks for more: every other verdict
stays whatever follows (`measure_append_of_ne_incomplete`), and a span is found in the bytes that it
takes up and in no fewer of them (`measure_take`). Decoding adds nothing to this. Its reading of the
fields has no checks of its own, and needs none where measuring has found a frame (`map_snd_decode`).
-/

namespace CommitLog.Frame

variable {maxField : Nat} {data : Bytes} {found : Span}

/-- **A span is found in its own bytes, and in no fewer of them.** -/
theorem measure_take (h : measure maxField data = .ok found) (k : Nat) :
    measure maxField (data.take k)
      = if found.length ≤ k then .ok found else .error (.incomplete k) := by
  obtain ⟨frame, later, hfits, rfl, rfl⟩ := measure_eq_ok_iff.1 h
  have hlength : frame.span.length = frame.encode.length := rfl
  rw [hlength]
  by_cases hk : frame.encode.length ≤ k
  · -- the cut falls behind the frame
    have htake : (frame.encode ++ later).take k
        = frame.encode ++ later.take (k - frame.encode.length) := by
      rw [List.take_append, List.take_of_length_le hk]
    rw [htake, measure_encode hfits, if_pos hk]
  · have hlt : k < frame.encode.length := Nat.lt_of_not_le hk
    rw [List.take_append_of_le_length (Nat.le_of_lt hlt), measure_take_of_lt hfits hlt, if_neg hk]

/-- **Decoding comes to what measuring comes to.** -/
theorem map_snd_decode (maxField : Nat) (data : Bytes) :
    (decode maxField data).map Prod.snd = measure maxField data := by
  cases hmeasure : measure maxField data with
  | error error =>
    unfold decode
    rw [hmeasure]
    rfl
  | ok found =>
    obtain ⟨frame, later, hfits, rfl, rfl⟩ := measure_eq_ok_iff.1 hmeasure
    rw [decode_encode_append hfits]
    rfl

/-- A frame that is decoded has as many entries as were measured. -/
theorem length_entries_of_decode {frame : Frame} (h : decode maxField data = .ok (frame, found)) :
    frame.entries.length = found.entries := by
  obtain ⟨-, -, -, rfl⟩ := decode_eq_ok_iff.1 h
  rfl

/-- **Measuring is stable under extension and exact under truncation, and decoding follows it.** A
verdict other than "incomplete" stays whatever comes behind the data. A span is found in every front
of the data that has room for it, and every shorter front is incomplete with just its own length.
Decoding succeeds where measuring does, with the same span and as many entries as the span has, and
fails with the same error where it fails. -/
theorem verdicts_are_stable_and_exact (maxField : Nat) (data : Bytes) :
    ((∀ available, measure maxField data ≠ .error (.incomplete available)) →
      ∀ more, measure maxField (data ++ more) = measure maxField data) ∧
    (∀ found, measure maxField data = .ok found → ∀ k, measure maxField (data.take k)
      = if found.length ≤ k then .ok found else .error (.incomplete k)) ∧
    (decode maxField data).map Prod.snd = measure maxField data ∧
    ∀ frame found, decode maxField data = .ok (frame, found) →
      frame.entries.length = found.entries :=
  ⟨fun h more => measure_append_of_ne_incomplete h more, fun _ h k => measure_take h k,
    map_snd_decode maxField data, fun _ _ h => length_entries_of_decode h⟩

/-- Behind a frame with an entry that reads like its end, a byte that another frame might begin
with. The frame is found in front of any byte and in its own 44, and is missed by one byte less. -/
theorem verdicts_are_stable_and_exact_of_delimiter_inside :
    let frame : Frame := ⟨⟨1, 2⟩, 3, [], [Bytes.ofUInt32 delimiter]⟩
    measure 4 (frame.encode ++ [0xDE]) = .ok ⟨44, 1⟩ ∧
      measure 4 (frame.encode ++ [0xDE] ++ [0xC0]) = .ok ⟨44, 1⟩ ∧
      measure 4 ((frame.encode ++ [0xDE]).take 44) = .ok ⟨44, 1⟩ ∧
      measure 4 ((frame.encode ++ [0xDE]).take 43) = .error (.incomplete 43) ∧
      decode 4 (frame.encode ++ [0xDE]) = .ok (frame, ⟨44, 1⟩) ∧
      frame.entries.length = (⟨44, 1⟩ : Span).entries := by
  intro frame
  have hfits : frame.Fits 4 := by decide
  have hmeasure : measure 4 (frame.encode ++ [0xDE]) = .ok ⟨44, 1⟩ := measure_encode hfits [0xDE]
  have hdecode : decode 4 (frame.encode ++ [0xDE]) = .ok (frame, ⟨44, 1⟩) :=
    decode_encode_append hfits [0xDE]
  obtain ⟨hstable, hexact, -, hentries⟩ :=
    verdicts_are_stable_and_exact 4 (frame.encode ++ [0xDE])
  have hcomplete : ∀ available,
      measure 4 (frame.encode ++ [0xDE]) ≠ .error (.incomplete available) := by
    intro available hincomplete
    rw [hmeasure] at hincomplete
    cases hincomplete
  exact ⟨hmeasure, (hstable hcomplete [0xC0]).trans hmeasure, hexact _ hmeasure 44,
    hexact _ hmeasure 43, hdecode, hentries frame _ hdecode⟩

end CommitLog.Frame
