import CommitLog.Frame

/-!
# Measuring stored frames

What `measure` says about data that begins with a stored frame, about data that ends inside one,
and about data that goes on behind what was measured.

* `measure_eq_ok_iff`: a span is found exactly where the data begins with a stored frame whose
  fields keep to the limit.
* `measure_take_of_lt`: a frame that is cut short is incomplete, wherever the cut falls. A length
  that is cut through, a field that is cut through and a frame without its closing delimiter are
  one case each.
* `measure_append_of_ne_incomplete`: every other verdict stays when more data follows.

The walk over the fields is the part with an argument in it. Its three equations come first: the
closing delimiter, a whole field, and the two ways to run out of data.
-/

namespace CommitLog.Frame

/-- The room of a frame, and how many entries it holds. -/
def span (frame : Frame) : Span := ⟨frame.encode.length, frame.entries.length⟩

/-- No field of the frame is too long for a log with this limit. -/
def Fits (maxField : Nat) (frame : Frame) : Prop :=
  ∀ field ∈ frame.key :: frame.entries, field.length ≤ min maxField maxFieldLength

/-- The frame is that of a commit of a log with this limit. -/
structure IsCommit (maxField : Nat) (frame : Frame) : Prop where
  fits : frame.Fits maxField
  entries_ne : frame.entries ≠ []

instance (maxField : Nat) (frame : Frame) : Decidable (frame.Fits maxField) :=
  inferInstanceAs (Decidable (∀ field ∈ frame.key :: frame.entries,
    field.length ≤ min maxField maxFieldLength))

instance (maxField : Nat) (frame : Frame) : Decidable (frame.IsCommit maxField) :=
  decidable_of_iff (frame.Fits maxField ∧ frame.entries ≠ [])
    ⟨fun h => ⟨h.1, h.2⟩, fun h => ⟨h.fits, h.entries_ne⟩⟩

theorem maxFieldLength_lt_delimiter : maxFieldLength < delimiter.toNat := by decide

/-- A length that a log allows is a length, and not the end of a frame. -/
theorem ofNat_length_ne_delimiter {n : Nat} (h : n ≤ maxFieldLength) :
    UInt32.ofNat n ≠ delimiter := by
  intro he
  have hd := maxFieldLength_lt_delimiter
  have hn := congrArg UInt32.toNat he
  rw [UInt32.toNat_ofNat'] at hn
  have hle : n % 2 ^ 32 ≤ n := Nat.mod_le n _
  omega

theorem toNat_ofNat_length {n : Nat} (h : n ≤ maxFieldLength) : (UInt32.ofNat n).toNat = n := by
  rw [UInt32.toNat_ofNat']
  have hd : maxFieldLength < 2 ^ 32 := by decide
  exact Nat.mod_eq_of_lt (by omega)

/-! ## Walking over fields -/

section Fields

variable {limit : Nat} (hlimit : limit ≤ maxFieldLength)

theorem measureFields_delimiter (whole rest : Bytes) (pos count : Nat) :
    measureFields limit whole (Bytes.ofUInt32 delimiter ++ rest) pos count
      = .ok (pos + wordSize, count) := by
  unfold measureFields
  split
  next h => simp at h
  next h =>
    simp only [Bytes.readUInt32?_ofUInt32, Option.some.injEq, Prod.mk.injEq] at h
    rw [if_pos h.1.symm]

include hlimit in
theorem measureFields_field {field : Bytes} (hfield : field.length ≤ limit)
    (whole rest : Bytes) (pos count : Nat) :
    measureFields limit whole (encodeField field ++ rest) pos count
      = measureFields limit whole rest (pos + wordSize + field.length) (count + 1) := by
  have hlen := toNat_ofNat_length (Nat.le_trans hfield hlimit)
  have hne := ofNat_length_ne_delimiter (Nat.le_trans hfield hlimit)
  unfold encodeField
  rw [List.append_assoc, measureFields]
  split
  next h => simp at h
  next length body h =>
    simp only [Bytes.readUInt32?_ofUInt32, Option.some.injEq, Prod.mk.injEq] at h
    obtain ⟨rfl, rfl⟩ := h
    rw [if_neg hne, if_neg (by omega)]
    split
    next h =>
      rw [hlen, Bytes.split?_append] at h
      simp at h
    next h =>
      rw [hlen, Bytes.split?_append] at h
      simp only [Option.some.injEq, Prod.mk.injEq] at h
      rw [← h.2, hlen]

theorem measureFields_of_length_lt {rest : Bytes} (h : rest.length < wordSize) (whole : Bytes)
    (pos count : Nat) :
    measureFields limit whole rest pos count = .error (.incomplete whole.length) := by
  unfold measureFields
  split
  next => rfl
  next hword =>
    rw [Bytes.readUInt32?_eq_none_iff.2 h] at hword
    simp at hword

theorem measureFields_of_field_cut {length : UInt32} {body : Bytes} (hne : length ≠ delimiter)
    (hle : length.toNat ≤ limit) (hcut : body.length < length.toNat) (whole : Bytes)
    (pos count : Nat) :
    measureFields limit whole (Bytes.ofUInt32 length ++ body) pos count
      = .error (.incomplete whole.length) := by
  unfold measureFields
  split
  next => rfl
  next h =>
    simp only [Bytes.readUInt32?_ofUInt32, Option.some.injEq, Prod.mk.injEq] at h
    obtain ⟨rfl, rfl⟩ := h
    rw [if_neg hne, if_neg (by omega)]
    split
    next => rfl
    next h =>
      rw [Bytes.split?_eq, if_neg (by omega)] at h
      simp at h

include hlimit in
/-- The walk ends well on fields that keep to the limit, with the closing delimiter behind. -/
theorem measureFields_encode (whole rest : Bytes) : ∀ (fields : List Bytes) (pos count : Nat),
    (∀ field ∈ fields, field.length ≤ limit) →
    measureFields limit whole
        (fields.flatMap encodeField ++ (Bytes.ofUInt32 delimiter ++ rest)) pos count
      = .ok (pos + (fields.flatMap encodeField).length + wordSize, count + fields.length) := by
  intro fields
  induction fields with
  | nil =>
    intro pos count _
    exact measureFields_delimiter whole rest pos count
  | cons field later ih =>
    intro pos count h
    rw [List.flatMap_cons, List.append_assoc,
      measureFields_field hlimit (h field List.mem_cons_self),
      ih _ _ (fun x hx => h x (List.mem_cons_of_mem _ hx))]
    simp only [List.length_append, List.length_cons, length_encodeField, Except.ok.injEq,
      Prod.mk.injEq]
    omega

/-- Where the walk ends well, there are fields with the closing delimiter behind. -/
theorem exists_fields_of_measureFields {whole rest : Bytes} {pos count stop total : Nat}
    (h : measureFields limit whole rest pos count = .ok (stop, total)) :
    ∃ (fields : List Bytes) (later : Bytes),
      rest = fields.flatMap encodeField ++ (Bytes.ofUInt32 delimiter ++ later) ∧
      (∀ field ∈ fields, field.length ≤ limit) ∧ total = count + fields.length := by
  -- along the walk: each field that it passes over goes in front of those found behind it
  fun_induction measureFields limit whole rest pos count with
  | case1 => simp at h
  | case2 rest pos count body hword =>
    simp only [Except.ok.injEq, Prod.mk.injEq] at h
    refine ⟨[], body, ?_, by simp, by simp [← h.2]⟩
    simpa using Bytes.readUInt32?_eq_some_iff.1 hword
  | case3 => simp at h
  | case4 => simp at h
  | case5 rest pos count length body hword hne hle field next hbody ih =>
    obtain ⟨fields, later, hnext, hall, htotal⟩ := ih h
    obtain ⟨rfl, hlen⟩ := Bytes.split?_eq_some_iff.1 hbody
    have hfield : encodeField field = Bytes.ofUInt32 length ++ field := by
      unfold encodeField
      rw [hlen]
      simp
    refine ⟨field :: fields, later, ?_, ?_, ?_⟩
    · rw [Bytes.readUInt32?_eq_some_iff.1 hword, hnext, List.flatMap_cons, hfield]
      simp only [List.append_assoc]
    · intro x hx
      rcases List.mem_cons.1 hx with rfl | hx
      · omega
      · exact hall x hx
    · rw [htotal, List.length_cons]
      omega

include hlimit in
/-- Fields that are cut short, wherever the cut falls, leave the walk incomplete. -/
theorem measureFields_take (whole : Bytes) : ∀ (fields : List Bytes) (k pos count : Nat),
    (∀ field ∈ fields, field.length ≤ limit) →
    k < (fields.flatMap encodeField).length + wordSize →
    measureFields limit whole
        ((fields.flatMap encodeField ++ Bytes.ofUInt32 delimiter).take k) pos count
      = .error (.incomplete whole.length) := by
  intro fields
  induction fields with
  | nil =>
    intro k pos count _ hk
    refine measureFields_of_length_lt ?_ whole pos count
    simp only [List.flatMap_nil, List.length_nil, Nat.zero_add] at hk
    rw [List.length_take]
    omega
  | cons field later ih =>
    intro k pos count h hk
    have hfield : field.length ≤ limit := h field List.mem_cons_self
    have hlen := toNat_ofNat_length (Nat.le_trans hfield hlimit)
    rw [List.flatMap_cons, List.append_assoc]
    rw [List.flatMap_cons, List.length_append] at hk
    -- the cut falls behind the field, into its length, or into its bytes
    rcases Nat.lt_or_ge k (encodeField field).length with hlt | hge
    · rcases Nat.lt_or_ge k wordSize with hword | hword
      · exact measureFields_of_length_lt (by rw [List.length_take]; omega) whole pos count
      · rw [List.take_append_of_le_length (Nat.le_of_lt hlt), encodeField,
          List.take_append, Bytes.length_ofUInt32,
          List.take_of_length_le (by rw [Bytes.length_ofUInt32]; exact hword)]
        rw [length_encodeField] at hlt
        refine measureFields_of_field_cut
          (ofNat_length_ne_delimiter (Nat.le_trans hfield hlimit)) (by omega) ?_ whole pos count
        rw [List.length_take, hlen]
        simp only [wordSize] at hlt hword
        omega
    · rw [List.take_append, List.take_of_length_le hge, measureFields_field hlimit hfield]
      exact ih _ _ _ (fun x hx => h x (List.mem_cons_of_mem _ hx)) (by omega)

/-- A verdict that does not come from running out of data stays when more data follows. -/
theorem measureFields_append {whole rest : Bytes} {pos count : Nat}
    (h : ∀ available, measureFields limit whole rest pos count ≠ .error (.incomplete available))
    (whole' more : Bytes) :
    measureFields limit whole' (rest ++ more) pos count
      = measureFields limit whole rest pos count := by
  fun_induction measureFields limit whole rest pos count with
  -- the data must not run out, which leaves the verdicts that were read off whole fields
  | case1 => exact absurd rfl (h whole.length)
  | case2 rest pos count body hword =>
    rw [Bytes.readUInt32?_eq_some_iff.1 hword, List.append_assoc, measureFields_delimiter]
  | case3 rest pos count length body hword hne hlt =>
    rw [Bytes.readUInt32?_eq_some_iff.1 hword, List.append_assoc, measureFields]
    split
    next h => simp at h
    next h =>
      simp only [Bytes.readUInt32?_ofUInt32, Option.some.injEq, Prod.mk.injEq] at h
      obtain ⟨rfl, rfl⟩ := h
      rw [if_neg hne, if_pos hlt]
  | case4 => exact absurd rfl (h whole.length)
  | case5 rest pos count length body hword hne hle field next hbody ih =>
    obtain ⟨rfl, hlen⟩ := Bytes.split?_eq_some_iff.1 hbody
    rw [← ih h, Bytes.readUInt32?_eq_some_iff.1 hword, List.append_assoc, measureFields]
    split
    next h => simp at h
    next h =>
      simp only [Bytes.readUInt32?_ofUInt32, Option.some.injEq, Prod.mk.injEq] at h
      obtain ⟨rfl, rfl⟩ := h
      rw [if_neg hne, if_neg hle]
      split
      next h =>
        rw [List.append_assoc, ← hlen, Bytes.split?_append] at h
        simp at h
      next h =>
        rw [List.append_assoc, ← hlen, Bytes.split?_append] at h
        simp only [Option.some.injEq, Prod.mk.injEq] at h
        rw [← h.2]

end Fields

/-! ## Measuring a frame -/

variable {maxField : Nat}

/-- Behind a header, a frame is what the walk over its fields makes of it. -/
theorem measure_header (id : Identifier) (timestamp : UInt64) (rest : Bytes) :
    measure maxField (encodeHeader id timestamp ++ rest)
      = match measureFields (min maxField maxFieldLength) (encodeHeader id timestamp ++ rest) rest
          headerSize 0 with
        | .error e => .error e
        | .ok (_, 0) => .error .missingKey
        | .ok (length, entries + 1) => .ok ⟨length, entries⟩ := by
  have hword : Bytes.readUInt32? (encodeHeader id timestamp ++ rest)
      = some (delimiter, Bytes.ofUInt64 id.hi ++ Bytes.ofUInt64 id.lo
          ++ Bytes.ofUInt64 timestamp ++ rest) := by
    simp only [encodeHeader, List.append_assoc, Bytes.readUInt32?_ofUInt32]
  have hsplit : Bytes.split? headerSize (encodeHeader id timestamp ++ rest)
      = some (encodeHeader id timestamp, rest) := by
    rw [← length_encodeHeader id timestamp, Bytes.split?_append]
  cases hfields : measureFields (min maxField maxFieldLength) (encodeHeader id timestamp ++ rest)
      rest headerSize 0 with
  | error e => simp only [measure, hword, hsplit, hfields, ne_eq, not_true_eq_false, if_false]
  | ok found =>
    obtain ⟨length, count⟩ := found
    cases count with
    | zero => simp only [measure, hword, hsplit, hfields, ne_eq, not_true_eq_false, if_false]
    | succ count => simp only [measure, hword, hsplit, hfields, ne_eq, not_true_eq_false, if_false]

/-- Bytes that a header has room for and that begin with the delimiter are a header. -/
theorem exists_header_of_split? {data front rest body : Bytes}
    (hword : Bytes.readUInt32? data = some (delimiter, body))
    (hsplit : Bytes.split? headerSize data = some (front, rest)) :
    ∃ id timestamp, data = encodeHeader id timestamp ++ rest := by
  obtain ⟨rfl, hfront⟩ := Bytes.split?_eq_some_iff.1 hsplit
  have hbody : body.length = 24 + rest.length := by
    have hlen := congrArg List.length (Bytes.readUInt32?_eq_some_iff.1 hword)
    rw [List.length_append, List.length_append, Bytes.length_ofUInt32, hfront] at hlen
    simp only [headerSize] at hlen
    omega
  -- the rest of a header is three words of eight bytes
  have hread (bytes : Bytes) (h : 8 ≤ bytes.length) :
      ∃ (n : UInt64) (later : Bytes), bytes = Bytes.ofUInt64 n ++ later := by
    cases hn : Bytes.readUInt64? bytes with
    | none => exact absurd (Bytes.readUInt64?_eq_none_iff.1 hn) (by omega)
    | some found => exact ⟨found.1, found.2, Bytes.readUInt64?_eq_some_iff.1 hn⟩
  obtain ⟨hi, body₁, rfl⟩ := hread body (by omega)
  rw [List.length_append, Bytes.length_ofUInt64] at hbody
  obtain ⟨lo, body₂, rfl⟩ := hread body₁ (by omega)
  rw [List.length_append, Bytes.length_ofUInt64] at hbody
  obtain ⟨timestamp, body₃, rfl⟩ := hread body₂ (by omega)
  refine ⟨⟨hi, lo⟩, timestamp, ?_⟩
  have hdata := Bytes.readUInt32?_eq_some_iff.1 hword
  have hheader : front ++ rest = encodeHeader ⟨hi, lo⟩ timestamp ++ body₃ := by
    rw [hdata]
    simp only [encodeHeader, List.append_assoc]
  have hcut := List.append_inj hheader (by rw [hfront, length_encodeHeader])
  rw [hcut.1]

theorem encode_append (frame : Frame) (later : Bytes) :
    frame.encode ++ later = encodeHeader frame.id frame.timestamp
      ++ ((frame.key :: frame.entries).flatMap encodeField
        ++ (Bytes.ofUInt32 delimiter ++ later)) := by
  simp only [encode, List.append_assoc]

theorem length_encode_eq (frame : Frame) :
    frame.encode.length
      = headerSize + ((frame.key :: frame.entries).flatMap encodeField).length + wordSize := by
  simp only [encode, List.length_append, length_encodeHeader, Bytes.length_ofUInt32, wordSize]

theorem length_encode_pos (frame : Frame) : 0 < frame.encode.length := by
  rw [length_encode_eq]
  simp only [headerSize]
  omega

/-- A stored frame measures as what it is, whatever follows. -/
theorem measure_encode {frame : Frame} (h : frame.Fits maxField) (later : Bytes) :
    measure maxField (frame.encode ++ later) = .ok frame.span := by
  rw [encode_append, measure_header,
    measureFields_encode (Nat.min_le_right _ _) _ later _ headerSize 0 h]
  simp only [span, length_encode_eq, List.length_cons, Nat.zero_add]

/-- **A span is found exactly where the data begins with a stored frame that fits.** -/
theorem measure_eq_ok_iff {data : Bytes} {found : Span} :
    measure maxField data = .ok found ↔
      ∃ frame later, Fits maxField frame ∧ data = frame.encode ++ later ∧ found = frame.span := by
  constructor
  · intro h
    -- the walk gives the fields, and measuring the frame made of them gives the span back
    have hm := h
    unfold measure at h
    split at h
    next => simp at h
    next word body hword =>
      split at h
      next => simp at h
      next hdelim =>
        obtain rfl : word = delimiter := by simpa using hdelim
        split at h
        next => simp at h
        next front rest hsplit =>
          obtain ⟨id, timestamp, rfl⟩ := exists_header_of_split? hword hsplit
          split at h
          next => simp at h
          next => simp at h
          next length entries hfields =>
            obtain ⟨fields, later, rfl, hall, hcount⟩ := exists_fields_of_measureFields hfields
            cases fields with
            | nil => simp at hcount
            | cons key more =>
              have hfits : Fits maxField ⟨id, timestamp, key, more⟩ := hall
              have henc := encode_append ⟨id, timestamp, key, more⟩ later
              refine ⟨⟨id, timestamp, key, more⟩, later, hfits, henc.symm, ?_⟩
              rw [← henc, measure_encode hfits] at hm
              exact (Except.ok.inj hm).symm
  · rintro ⟨frame, later, hfits, rfl, rfl⟩
    exact measure_encode hfits later

theorem measure_of_length_lt {data : Bytes} (h : data.length < wordSize) :
    measure maxField data = .error (.incomplete data.length) := by
  simp only [measure, Bytes.readUInt32?_eq_none_iff.2 h]

/-- **A frame that is cut short is incomplete, wherever the cut falls.** -/
theorem measure_take_of_lt {frame : Frame} (h : frame.Fits maxField) {k : Nat}
    (hk : k < frame.encode.length) :
    measure maxField (frame.encode.take k) = .error (.incomplete k) := by
  have hlen : (frame.encode.take k).length = k := by
    rw [List.length_take]
    omega
  -- the cut falls into the delimiter, into the rest of the header, or behind it
  rcases Nat.lt_or_ge k wordSize with hword | hword
  · rw [measure_of_length_lt (by omega), hlen]
  · rcases Nat.lt_or_ge k headerSize with hheader | hheader
    · have hdelim : frame.encode.take k
          = Bytes.ofUInt32 delimiter ++ (frame.encode.drop 4).take (k - 4) := by
        have hdrop : frame.encode = Bytes.ofUInt32 delimiter ++ frame.encode.drop 4 := by
          simp [encode, encodeHeader, List.append_assoc]
        conv => lhs; rw [hdrop]
        rw [List.take_append, Bytes.length_ofUInt32,
          List.take_of_length_le (by rw [Bytes.length_ofUInt32]; exact hword)]
      have hread := Bytes.readUInt32?_eq_some_iff.2 hdelim
      have hsplit : Bytes.split? headerSize (frame.encode.take k) = none := by
        rw [Bytes.split?_eq, if_neg (by omega)]
      simp only [measure, hread, hsplit, hlen, ne_eq, not_true_eq_false, if_false]
    · have htake : frame.encode.take k = encodeHeader frame.id frame.timestamp
          ++ ((frame.key :: frame.entries).flatMap encodeField
            ++ Bytes.ofUInt32 delimiter).take (k - headerSize) := by
        rw [encode, List.append_assoc, List.take_append, length_encodeHeader,
          List.take_of_length_le (by rw [length_encodeHeader]; exact hheader)]
      rw [length_encode_eq] at hk
      rw [htake, measure_header,
        measureFields_take (Nat.min_le_right _ _) _ _ _ headerSize 0 h (by omega), ← htake, hlen]

/-- **Every verdict that is not "incomplete" stays when more data follows.** -/
theorem measure_append_of_ne_incomplete {data : Bytes}
    (h : ∀ available, measure maxField data ≠ .error (.incomplete available)) (more : Bytes) :
    measure maxField (data ++ more) = measure maxField data := by
  cases hword : Bytes.readUInt32? data with
  | none => exact absurd (by simp only [measure, hword]) (h data.length)
  | some found =>
    obtain ⟨word, body⟩ := found
    have hword' : Bytes.readUInt32? (data ++ more) = some (word, body ++ more) := by
      rw [Bytes.readUInt32?_eq_some_iff.1 hword, List.append_assoc, Bytes.readUInt32?_ofUInt32]
    by_cases hdelim : word = delimiter
    · subst hdelim
      cases hsplit : Bytes.split? headerSize data with
      | none =>
        refine absurd ?_ (h data.length)
        simp only [measure, hword, hsplit, ne_eq, not_true_eq_false, if_false]
      | some cut =>
        obtain ⟨id, timestamp, rfl⟩ := exists_header_of_split? hword hsplit
        rw [List.append_assoc, measure_header, measure_header]
        rw [measureFields_append]
        intro available hfields
        exact h available (by rw [measure_header, hfields])
    · simp only [measure, hword, hword', ne_eq, hdelim, not_false_eq_true, if_true]

end CommitLog.Frame
