import CommitLog.Proofs.Partition.Overrun

/-!
# A last frame of which only the front has landed

A crash may leave a file that has grown before its data came to the disk: the front of the last
frame has landed, and zeros stand where the rest was to be. The zeros complete the word that the
front ends in, and what becomes of the file depends on that word alone.

* A length that landed in part reads as a smaller length. The walk goes on over the zeros, which
  are fields without bytes, and runs out of data at the end of the file: the frame is cut short.
* An opening delimiter that landed in part reads as another word. The data is no frame.
* A closing delimiter that landed in part reads as a length. The data is no frame if that length is
  not allowed, and is cut short if it is.

`Misread` names the two cases in which the data is no frame. There the scan reports damage, since
the data is not zero from its first byte on. In every other case it is a torn write
(`scan_of_partlyLanded`).
-/

namespace CommitLog.Bytes

theorem ofNat_zero (width : Nat) : ofNat width 0 = List.replicate width 0 := by
  induction width with
  | zero => rfl
  | succ width ih => rw [ofNat, Nat.zero_div, ih, List.replicate_succ]; rfl

/-- A number of which only the low bytes have landed, with zeros for the others. -/
theorem take_ofNat_append_zeros (width landed n : Nat) (h : landed ≤ width) :
    (ofNat width n).take landed ++ List.replicate (width - landed) 0
      = ofNat width (n % wordCount landed) := by
  induction width generalizing landed n with
  | zero =>
    obtain rfl : landed = 0 := by omega
    rfl
  | succ width ih =>
    cases landed with
    | zero => rw [wordCount, Nat.mod_one, ofNat_zero]; rfl
    | succ landed =>
      have hlow : UInt8.ofNat (n % (256 * wordCount landed)) = UInt8.ofNat n := by
        apply UInt8.toNat.inj
        rw [UInt8.toNat_ofNat', UInt8.toNat_ofNat']
        exact Nat.mod_mul_right_mod n 256 (wordCount landed)
      rw [wordCount, ofNat, ofNat, List.take_succ_cons, List.cons_append, hlow,
        Nat.mod_mul_right_div_self, Nat.add_sub_add_right, ih landed (n / 256) (by omega)]

/-- What a word reads as when only its first bytes have landed. -/
def landedPart (landed : Nat) (word : UInt32) : UInt32 :=
  UInt32.ofNat (word.toNat % wordCount landed)

theorem toNat_landedPart_le (landed : Nat) (word : UInt32) :
    (landedPart landed word).toNat ≤ word.toNat := by
  unfold landedPart
  rw [UInt32.toNat_ofNat']
  exact Nat.le_trans (Nat.mod_le _ _) (Nat.mod_le _ _)

/-- Zeros complete a word of which only the front has landed. -/
theorem take_ofUInt32_append_zeros (word : UInt32) {landed zeros : Nat} (hlanded : landed ≤ 4)
    (hzeros : 4 ≤ landed + zeros) :
    (ofUInt32 word).take landed ++ List.replicate zeros 0
      = ofUInt32 (landedPart landed word) ++ List.replicate (landed + zeros - 4) 0 := by
  have hlt : word.toNat % wordCount landed < 2 ^ 32 :=
    Nat.lt_of_le_of_lt (Nat.mod_le _ _) word.toNat_lt
  have hsplit : zeros = 4 - landed + (landed + zeros - 4) := by omega
  conv => lhs; rw [hsplit]
  rw [← List.replicate_append_replicate, ← List.append_assoc, ofUInt32, ofUInt32,
    take_ofNat_append_zeros 4 landed word.toNat hlanded, landedPart, UInt32.toNat_ofNat',
    Nat.mod_eq_of_lt hlt]

end CommitLog.Bytes

namespace CommitLog.Frame

open CommitLog.Bytes (landedPart)

variable {maxField limit : Nat}

/-! ## Fields with zeros behind them -/

/-- Zeros are fields without bytes, up to the end of the data. -/
theorem fieldsOverrun_zeros (limit zeros : Nat) :
    FieldsOverrun limit (List.replicate zeros 0) := by
  induction zeros using Nat.strongRecOn with
  | ind zeros ih =>
    by_cases hword : zeros < wordSize
    · exact .noLength (by simpa using hword)
    · simp only [wordSize] at hword
      have hsplit : List.replicate zeros (0 : UInt8)
          = encodeField [] ++ List.replicate (zeros - 4) 0 := by
        have hfield : encodeField [] = List.replicate 4 (0 : UInt8) := by decide
        rw [hfield, List.replicate_append_replicate]
        congr 1
        omega
      rw [hsplit]
      exact .later (Nat.zero_le _) (ih (zeros - 4) (by omega))

/-- Zeros complete the bytes of a field, or the data runs out before. -/
theorem fieldsOverrun_of_length (hlimit : limit ≤ maxFieldLength) {length : UInt32}
    (hle : length.toNat ≤ limit) {landed : Bytes} (hlanded : landed.length ≤ length.toNat)
    (zeros : Nat) :
    FieldsOverrun limit (Bytes.ofUInt32 length ++ (landed ++ List.replicate zeros 0)) := by
  by_cases hcut : landed.length + zeros < length.toNat
  · have hmax := maxFieldLength_lt_delimiter
    refine .noBody ?_ hle (by simpa using hcut)
    rintro rfl
    omega
  · -- the first zeros belong to the field, and the walk goes on over the others
    have hsplit : landed ++ List.replicate zeros 0
        = (landed ++ List.replicate (length.toNat - landed.length) 0)
          ++ List.replicate (landed.length + zeros - length.toNat) 0 := by
      rw [List.append_assoc, List.replicate_append_replicate]
      congr 2
      omega
    have hfield : (landed ++ List.replicate (length.toNat - landed.length) 0).length
        = length.toNat := by
      rw [List.length_append, List.length_replicate]
      omega
    have hencode : Bytes.ofUInt32 length
          ++ (landed ++ List.replicate (length.toNat - landed.length) 0)
        = encodeField (landed ++ List.replicate (length.toNat - landed.length) 0) := by
      unfold encodeField
      rw [hfield, UInt32.ofNat_toNat]
    rw [hsplit, ← List.append_assoc, hencode]
    exact .later (by omega) (fieldsOverrun_zeros limit _)

/-- A word that landed in part runs out of data, or reads as a length. -/
theorem fieldsOverrun_of_word (hlimit : limit ≤ maxFieldLength) {word : UInt32}
    {landed zeros : Nat} (hlanded : landed ≤ 4)
    (hle : 4 ≤ landed + zeros → (landedPart landed word).toNat ≤ limit) :
    FieldsOverrun limit ((Bytes.ofUInt32 word).take landed ++ List.replicate zeros 0) := by
  by_cases hword : landed + zeros < 4
  · refine .noLength ?_
    rw [List.length_append, List.length_take, Bytes.length_ofUInt32, List.length_replicate]
    simp only [wordSize]
    omega
  · have hzeros : 4 ≤ landed + zeros := by omega
    have hlength : FieldsOverrun limit (Bytes.ofUInt32 (landedPart landed word)
        ++ ([] ++ List.replicate (landed + zeros - 4) 0)) :=
      fieldsOverrun_of_length hlimit (hle hzeros) (Nat.zero_le _) _
    rw [Bytes.take_ofUInt32_append_zeros word hlanded hzeros]
    exact hlength

/-- A field that landed in part, with zeros behind it. -/
theorem fieldsOverrun_of_field (hlimit : limit ≤ maxFieldLength) {field : Bytes}
    (hfield : field.length ≤ limit) (landed zeros : Nat) :
    FieldsOverrun limit ((encodeField field).take landed ++ List.replicate zeros 0) := by
  have hlen := toNat_ofNat_length (Nat.le_trans hfield hlimit)
  unfold encodeField
  rcases Nat.lt_or_ge landed 4 with hword | hword
  · -- the length reads as one that is not larger
    rw [List.take_append_of_le_length (by rw [Bytes.length_ofUInt32]; omega)]
    refine fieldsOverrun_of_word hlimit (by omega) fun _ => ?_
    exact Nat.le_trans (Bytes.toNat_landedPart_le _ _) (by omega)
  · rw [List.take_append, Bytes.length_ofUInt32,
      List.take_of_length_le (by rw [Bytes.length_ofUInt32]; exact hword), List.append_assoc]
    refine fieldsOverrun_of_length hlimit (by omega) ?_ zeros
    rw [List.length_take, hlen]
    omega

/-- Fields that landed in part, with zeros behind them. -/
theorem fieldsOverrun_of_fields (hlimit : limit ≤ maxFieldLength) (closing : Bytes)
    (zeros : Nat) : ∀ (fields : List Bytes) (landed : Nat),
    (∀ field ∈ fields, field.length ≤ limit) →
    landed ≤ (fields.flatMap encodeField).length →
    FieldsOverrun limit
      ((fields.flatMap encodeField ++ closing).take landed ++ List.replicate zeros 0) := by
  intro fields
  induction fields with
  | nil =>
    intro landed _ hlanded
    obtain rfl : landed = 0 := by simpa using hlanded
    exact fieldsOverrun_zeros limit zeros
  | cons field later ih =>
    intro landed h hlanded
    have hfield : field.length ≤ limit := h field List.mem_cons_self
    rw [List.flatMap_cons, List.length_append] at hlanded
    rw [List.flatMap_cons, List.append_assoc]
    rcases Nat.le_total landed (encodeField field).length with hcut | hcut
    · rw [List.take_append_of_le_length hcut]
      exact fieldsOverrun_of_field hlimit hfield landed zeros
    · rw [List.take_append, List.take_of_length_le hcut, List.append_assoc]
      exact .later hfield (ih _ (fun x hx => h x (List.mem_cons_of_mem _ hx)) (by omega))

/-- What runs past the end behind whole fields does so with the fields in front. -/
theorem FieldsOverrun.behind {rest : Bytes} (hrest : FieldsOverrun limit rest) :
    ∀ fields : List Bytes, (∀ field ∈ fields, field.length ≤ limit) →
    FieldsOverrun limit (fields.flatMap encodeField ++ rest) := by
  intro fields
  induction fields with
  | nil => intro _; exact hrest
  | cons field later ih =>
    intro h
    rw [List.flatMap_cons, List.append_assoc]
    exact .later (h field List.mem_cons_self) (ih fun x hx => h x (List.mem_cons_of_mem _ hx))

/-- The walk passes over whole fields. -/
theorem measureFields_fields (hlimit : limit ≤ maxFieldLength) (whole rest : Bytes) :
    ∀ (fields : List Bytes) (pos count : Nat), (∀ field ∈ fields, field.length ≤ limit) →
    measureFields limit whole (fields.flatMap encodeField ++ rest) pos count
      = measureFields limit whole rest (pos + (fields.flatMap encodeField).length)
          (count + fields.length) := by
  intro fields
  induction fields with
  | nil => intro pos count _; rfl
  | cons field later ih =>
    intro pos count h
    rw [List.flatMap_cons, List.append_assoc,
      measureFields_field hlimit (h field List.mem_cons_self),
      ih _ _ (fun x hx => h x (List.mem_cons_of_mem _ hx)), List.length_append,
      length_encodeField, List.length_cons]
    congr 1 <;> omega

/-- A word that is too large to be a length ends the walk. -/
theorem measureFields_of_large {word : UInt32} (hne : word ≠ delimiter)
    (hlarge : limit < word.toNat) (whole rest : Bytes) (pos count : Nat) :
    measureFields limit whole (Bytes.ofUInt32 word ++ rest) pos count
      = .error (.fieldTooLarge word.toNat limit) := by
  unfold measureFields
  split
  next h => simp at h
  next h =>
    simp only [Bytes.readUInt32?_ofUInt32, Option.some.injEq, Prod.mk.injEq] at h
    obtain ⟨rfl, rfl⟩ := h
    rw [if_neg hne, if_pos hlarge]

theorem available_of_measureFields {whole rest : Bytes} {pos count available : Nat}
    (h : measureFields limit whole rest pos count = .error (.incomplete available)) :
    available = whole.length := by
  fun_induction measureFields limit whole rest pos count with
  | case1 => simpa using h.symm
  | case2 => simp at h
  | case3 => simp at h
  | case4 => simpa using h.symm
  | case5 _ _ _ _ _ _ _ _ _ _ _ ih => exact ih h

/-- Data that runs out has been looked at as a whole. -/
theorem available_of_measure {data : Bytes} {available : Nat}
    (h : measure maxField data = .error (.incomplete available)) : available = data.length := by
  unfold measure at h
  split at h
  next => simpa using h.symm
  next =>
    split at h
    next => simp at h
    next =>
      split at h
      next => simpa using h.symm
      next =>
        split at h
        next hfields =>
          obtain rfl := Except.error.inj h
          exact available_of_measureFields hfields
        next => simp at h
        next => simp at h

/-! ## A frame with zeros behind it -/

/-- The front of a frame, with zeros for what has not landed. -/
def partlyLanded (frame : Frame) (landed zeros : Nat) : Bytes :=
  frame.encode.take landed ++ List.replicate zeros 0

theorem length_partlyLanded {frame : Frame} {landed : Nat} (h : landed < frame.encode.length)
    (zeros : Nat) : (partlyLanded frame landed zeros).length = landed + zeros := by
  rw [partlyLanded, List.length_append, List.length_take, List.length_replicate]
  omega

/-- How zeros make something else of a delimiter that landed in part. -/
inductive Misread (maxField : Nat) (frame : Frame) (landed zeros : Nat) : Error → Prop where
  /-- The opening delimiter reads as another word. -/
  | opening (hcut : landed < wordSize) (hword : wordSize ≤ landed + zeros) :
      Misread maxField frame landed zeros (.badDelimiter (landedPart landed delimiter))
  /-- The closing delimiter reads as a length that is not allowed. -/
  | closing {part : Nat} (hcut : landed + wordSize = frame.encode.length + part)
      (hpart : 0 < part) (hword : frame.encode.length ≤ landed + zeros)
      (hlarge : min maxField maxFieldLength < (landedPart part delimiter).toNat) :
      Misread maxField frame landed zeros
        (.fieldTooLarge (landedPart part delimiter).toNat (min maxField maxFieldLength))

/-- A delimiter that landed in part is no delimiter. -/
theorem landedPart_delimiter_ne {landed : Nat} (h : landed < wordSize) :
    landedPart landed delimiter ≠ delimiter := by
  have hall : ∀ landed < wordSize, landedPart landed delimiter ≠ delimiter := by decide
  exact hall landed h

theorem partlyLanded_opening {frame : Frame} {landed zeros : Nat} (hcut : landed < wordSize)
    (hword : wordSize ≤ landed + zeros) :
    partlyLanded frame landed zeros
      = Bytes.ofUInt32 (landedPart landed delimiter)
        ++ List.replicate (landed + zeros - wordSize) 0 := by
  simp only [wordSize] at hcut hword ⊢
  rw [partlyLanded, encode, encodeHeader]
  simp only [List.append_assoc]
  rw [List.take_append_of_le_length (by rw [Bytes.length_ofUInt32]; omega),
    Bytes.take_ofUInt32_append_zeros delimiter (by omega) hword]

/-- Behind the header, the fields and the closing delimiter have landed in part. -/
theorem partlyLanded_header {frame : Frame} {landed : Nat} (h : headerSize ≤ landed)
    (zeros : Nat) :
    partlyLanded frame landed zeros
      = encodeHeader frame.id frame.timestamp
        ++ (((frame.key :: frame.entries).flatMap encodeField
            ++ Bytes.ofUInt32 delimiter).take (landed - headerSize)
          ++ List.replicate zeros 0) := by
  rw [partlyLanded, encode, List.append_assoc, List.take_append, length_encodeHeader,
    List.take_of_length_le (by rw [length_encodeHeader]; exact h), List.append_assoc]

/-- Behind the fields, the closing delimiter has landed in part. -/
theorem partlyLanded_closing {frame : Frame} {landed part : Nat}
    (hcut : landed + wordSize = frame.encode.length + part) (zeros : Nat) :
    partlyLanded frame landed zeros
      = encodeHeader frame.id frame.timestamp
        ++ ((frame.key :: frame.entries).flatMap encodeField
          ++ ((Bytes.ofUInt32 delimiter).take part ++ List.replicate zeros 0)) := by
  have hlen := length_encode_eq frame
  have hfields : landed - headerSize
      = ((frame.key :: frame.entries).flatMap encodeField).length + part := by omega
  rw [partlyLanded_header (by omega), hfields, List.take_length_add_append, List.append_assoc]

/-- **A misread frame measures as no frame.** -/
theorem measure_of_misread {frame : Frame} (hfits : frame.Fits maxField) {landed zeros : Nat}
    (hlanded : landed < frame.encode.length) {e : Error}
    (h : Misread maxField frame landed zeros e) :
    measure maxField (partlyLanded frame landed zeros) = .error e := by
  cases h with
  | opening hcut hword =>
    have hne := landedPart_delimiter_ne hcut
    rw [partlyLanded_opening hcut hword]
    simp only [measure, Bytes.readUInt32?_ofUInt32, ne_eq, hne, not_false_eq_true, if_true]
  | @closing part hcut hpart hword hlarge =>
    have hpart' : part < wordSize := by omega
    have hzeros : 4 ≤ part + zeros := by
      simp only [wordSize] at hcut
      omega
    rw [partlyLanded_closing hcut, measure_header,
      measureFields_fields (Nat.min_le_right _ _) _ _ _ _ _ hfits,
      Bytes.take_ofUInt32_append_zeros delimiter (Nat.le_of_lt hpart') hzeros,
      measureFields_of_large (landedPart_delimiter_ne hpart') hlarge]

/-- **A frame that landed in part and is not misread runs past the end of the data.** -/
theorem overrun_of_partlyLanded {frame : Frame} (hfits : frame.Fits maxField)
    {landed zeros : Nat} (hlanded : landed < frame.encode.length)
    (h : ∀ e, ¬Misread maxField frame landed zeros e) :
    Overrun maxField (partlyLanded frame landed zeros) := by
  have hlimit : min maxField maxFieldLength ≤ maxFieldLength := Nat.min_le_right _ _
  have hlen := length_encode_eq frame
  have hwhole := length_partlyLanded hlanded zeros
  rcases Nat.lt_or_ge landed wordSize with hopening | hopening
  · -- the opening delimiter
    refine .noDelimiter ?_
    rw [hwhole]
    exact Nat.not_le.1 fun hword => h _ (.opening hopening hword)
  rcases Nat.lt_or_ge landed headerSize with hheader | hheader
  · -- the rest of the header
    have hdelim : partlyLanded frame landed zeros
        = Bytes.ofUInt32 delimiter ++ (partlyLanded frame landed zeros).drop wordSize := by
      simp only [wordSize] at hopening
      simp only [partlyLanded, encode, encodeHeader, List.append_assoc]
      rw [List.take_append, Bytes.length_ofUInt32,
        List.take_of_length_le (by rw [Bytes.length_ofUInt32]; exact hopening),
        List.append_assoc, List.drop_left' (by rw [Bytes.length_ofUInt32]; rfl)]
    by_cases hroom : landed + zeros < headerSize
    · rw [hdelim]
      refine .noHeader ?_
      rw [List.length_drop, hwhole]
      simp only [headerSize, wordSize] at hroom hopening ⊢
      omega
    · have hsplit : Bytes.split? headerSize (partlyLanded frame landed zeros)
          = some ((partlyLanded frame landed zeros).take headerSize,
            List.replicate (landed + zeros - headerSize) 0) := by
        rw [Bytes.split?_eq, if_pos (by omega), partlyLanded, List.drop_append,
          List.drop_eq_nil_of_le (by rw [List.length_take]; omega), List.nil_append,
          List.drop_replicate, List.length_take, Nat.min_eq_left (Nat.le_of_lt hlanded)]
        congr 3
        omega
      obtain ⟨id, timestamp, hdata⟩ :=
        exists_header_of_split? (Bytes.readUInt32?_eq_some_iff.2 hdelim) hsplit
      rw [hdata]
      exact .fields (fieldsOverrun_zeros _ _)
  rcases Nat.lt_or_ge frame.encode.length (landed + wordSize) with hfields | hfields
  · -- the closing delimiter
    obtain ⟨part, hcut⟩ := Nat.exists_eq_add_of_le (Nat.le_of_lt hfields)
    simp only [wordSize] at hcut hfields hlen
    rw [partlyLanded_closing hcut]
    refine .fields (.behind (fieldsOverrun_of_word hlimit (by omega) fun hzeros => ?_) _ hfits)
    exact Nat.not_lt.1 fun hlarge => h _ (.closing hcut (by omega) (by omega) hlarge)
  · -- the fields
    rw [partlyLanded_header hheader]
    exact .fields (fieldsOverrun_of_fields hlimit _ zeros _ _ hfits (by omega))

end CommitLog.Frame

namespace CommitLog.Partition

open CommitLog.Frame (IsCommit Misread partlyLanded)

variable {maxField : Nat} {frames : List Frame} {next : Frame} {landed zeros : Nat}

theorem allZero_partlyLanded (hlanded : 0 < landed) :
    allZero (partlyLanded next landed zeros) = false := by
  have hfirst : (0xDE : UInt8) ∈ next.encode.take landed := by
    obtain ⟨later, hencode⟩ : ∃ later, next.encode = 0xDE :: later := ⟨_, rfl⟩
    obtain ⟨landed, rfl⟩ := Nat.exists_eq_succ_of_ne_zero (Nat.pos_iff_ne_zero.1 hlanded)
    rw [hencode, List.take_succ_cons]
    exact List.mem_cons_self
  unfold allZero
  rw [List.all_eq_false]
  exact ⟨0xDE, List.mem_append_left _ hfirst, by decide⟩

theorem partlyLanded_ne_nil (hpos : 0 < landed) (hlanded : landed < next.encode.length)
    (zeros : Nat) : partlyLanded next landed zeros ≠ [] := by
  intro h
  have hlength := Frame.length_partlyLanded hlanded zeros
  rw [h, List.length_nil] at hlength
  omega

/-- A misread frame is damage. -/
theorem scan_of_misread (hframes : ∀ frame ∈ frames, IsCommit maxField frame)
    (hnext : IsCommit maxField next) (hpos : 0 < landed) (hlanded : landed < next.encode.length)
    {e : Frame.Error} (h : Misread maxField next landed zeros e) (maxWindow : Nat) :
    scan maxField maxWindow (encodeAll frames ++ partlyLanded next landed zeros)
      = .error ((encodeAll frames).length, .frame e) := by
  have hm := Frame.measure_of_misread hnext.fits hlanded h
  rw [scan_encodeAll_append hframes,
    plainScanFrom_of_error (partlyLanded_ne_nil hpos hlanded zeros) hm, judge_of_ne_incomplete,
    allZero_partlyLanded hpos]
  · rfl
  · rintro available rfl
    cases h

/-- Any other frame that landed in part is a torn write. -/
theorem scan_of_not_misread (hframes : ∀ frame ∈ frames, IsCommit maxField frame)
    (hnext : IsCommit maxField next) (hpos : 0 < landed) (hlanded : landed < next.encode.length)
    (h : ∀ e, ¬Misread maxField next landed zeros e) (maxWindow : Nat) :
    scan maxField maxWindow (encodeAll frames ++ partlyLanded next landed zeros)
      = .ok ⟨locations frames, (encodeAll frames).length, entryCount frames,
          some (.cutShort (encodeAll frames).length (landed + zeros))⟩ := by
  obtain ⟨available, hm⟩ :=
    Frame.measure_of_overrun (Frame.overrun_of_partlyLanded hnext.fits hlanded h)
  obtain rfl : available = landed + zeros := by
    rw [Frame.available_of_measure hm, Frame.length_partlyLanded hlanded]
  rw [scan_encodeAll_append hframes,
    plainScanFrom_of_error (partlyLanded_ne_nil hpos hlanded zeros) hm]
  simp [judge, Except.map, Scan.behind]

/-- **A frame that landed in part is a torn write, unless a delimiter of it is misread.** The
zeros may be any number. A torn scan keeps the whole frames; a misread delimiter is reported as
damage behind them. -/
theorem scan_of_partlyLanded (hframes : ∀ frame ∈ frames, IsCommit maxField frame)
    (hnext : IsCommit maxField next) (hpos : 0 < landed) (hlanded : landed < next.encode.length)
    (zeros maxWindow : Nat) :
    (∃ e, Misread maxField next landed zeros e ∧
      scan maxField maxWindow (encodeAll frames ++ partlyLanded next landed zeros)
        = .error ((encodeAll frames).length, .frame e)) ∨
    (∀ e, ¬Misread maxField next landed zeros e) ∧
      scan maxField maxWindow (encodeAll frames ++ partlyLanded next landed zeros)
        = .ok ⟨locations frames, (encodeAll frames).length, entryCount frames,
            some (.cutShort (encodeAll frames).length (landed + zeros))⟩ := by
  by_cases h : ∃ e, Misread maxField next landed zeros e
  · obtain ⟨e, h⟩ := h
    exact Or.inl ⟨e, h, scan_of_misread hframes hnext hpos hlanded h maxWindow⟩
  · have h' : ∀ e, ¬Misread maxField next landed zeros e := fun e he => h ⟨e, he⟩
    exact Or.inr ⟨h', scan_of_not_misread hframes hnext hpos hlanded h' maxWindow⟩

/-- One commit, and of a second one the first byte alone with zeros for the rest: the scan fails,
although nothing of the first commit is missing. So it does if all has landed but the last byte. -/
theorem scan_of_landed_delimiter :
    ∃ (first next : Frame), IsCommit 4194304 first ∧ IsCommit 4194304 next ∧
      next.encode.length = 42 ∧
      scan 4194304 67108864 (encodeAll [first] ++ partlyLanded next 1 41)
        = .error (42, .frame (.badDelimiter 0xDE)) ∧
      scan 4194304 67108864 (encodeAll [first] ++ partlyLanded next 41 1)
        = .error (42, .frame (.fieldTooLarge 0xEDC0DE 4194304)) := by
  have hone : IsCommit 4194304 ⟨⟨1, 2⟩, 3, [107], [[118]]⟩ := by decide
  have htwo : IsCommit 4194304 ⟨⟨4, 5⟩, 6, [107], [[119]]⟩ := by decide
  have hfirst : ∀ frame ∈ [(⟨⟨1, 2⟩, 3, [107], [[118]]⟩ : Frame)], IsCommit 4194304 frame := by
    simp [hone]
  refine ⟨_, _, hone, htwo, by decide, ?_, ?_⟩
  · exact scan_of_misread hfirst htwo (by decide) (by decide)
      (.opening (by decide) (by decide)) 67108864
  · have hlarge : min 4194304 Frame.maxFieldLength
        < (Bytes.landedPart 3 Frame.delimiter).toNat := by decide
    exact scan_of_misread hfirst htwo (by decide) (by decide)
      (.closing (by decide) (by decide) (by decide) hlarge) 67108864

end CommitLog.Partition
