import CommitLog.Json.Node.Access

/-!
# Strings in a JSON text, there and back

A text is written as characters and read as letters, one for each byte of its UTF-8 (`spelled`).
What a string becomes on its way is known before it is read: an escape for each character that has
to be escaped, and the bytes of every other character (`Piece.ofText`). It is read as these pieces
(`readString_stringText`), and the pieces mean the text that was written (`Piece.text?_ofText`).
-/

namespace CommitLog

namespace Text.Utf8

theorem encode_ofList (cs : List Char) :
    encode (String.ofList cs) = cs.flatMap String.utf8EncodeChar := by
  unfold encode
  rw [String.toByteArray_ofList, List.utf8Encode, List.toList_data_toByteArray]

/-- An ASCII character has one byte. -/
theorem utf8EncodeChar_of_ascii {c : Char} (h : c.toNat < 0x80) :
    String.utf8EncodeChar c = [UInt8.ofNat c.toNat] := by
  have hle : c.val.toNat ≤ 127 := Nat.le_of_lt_succ h
  unfold String.utf8EncodeChar
  exact if_pos hle

/-- No byte of another character is ASCII. -/
theorem le_toNat_of_mem_utf8EncodeChar {c : Char} {b : UInt8} (h : 0x80 ≤ c.toNat)
    (hb : b ∈ String.utf8EncodeChar c) : 0x80 ≤ b.toNat := by
  have hlt : ¬c.val.toNat ≤ 127 := Nat.not_le_of_lt h
  unfold String.utf8EncodeChar at hb
  simp only [if_neg hlt] at hb
  split at hb
  next => simp only [List.mem_cons, List.not_mem_nil, or_false] at hb
          rcases hb with rfl | rfl <;> rw [UInt8.toNat_ofNat'] <;> omega
  next =>
    split at hb <;> simp only [List.mem_cons, List.not_mem_nil, or_false] at hb
    · rcases hb with rfl | rfl | rfl <;> rw [UInt8.toNat_ofNat'] <;> omega
    · rcases hb with rfl | rfl | rfl | rfl <;> rw [UInt8.toNat_ofNat'] <;> omega

end Text.Utf8

namespace Json

/-! ## Letters -/

/-- The letters that are read where characters were written. -/
def spelled (cs : List Char) : List Char := Node.letters (cs.flatMap String.utf8EncodeChar)

theorem letters_encode (cs : List Char) :
    Node.letters (Text.Utf8.encode (String.ofList cs)) = spelled cs := by
  rw [Text.Utf8.encode_ofList]
  rfl

theorem spelled_append (front back : List Char) :
    spelled (front ++ back) = spelled front ++ spelled back := by
  unfold spelled Node.letters
  rw [List.flatMap_append, List.map_append]

theorem spelled_cons_of_ascii {c : Char} (h : c.toNat < 0x80) (cs : List Char) :
    spelled (c :: cs) = c :: spelled cs := by
  unfold spelled Node.letters
  rw [List.flatMap_cons, Text.Utf8.utf8EncodeChar_of_ascii h, List.map_append]
  simp only [List.map_cons, List.map_nil, UInt8.toNat_ofNat', List.cons_append, List.nil_append]
  rw [Nat.mod_eq_of_lt (by omega), Char.ofNat_toNat]

/-- Whether all characters are ASCII. -/
def isAscii (cs : List Char) : Bool := cs.all fun c => c.toNat < 0x80

theorem spelled_of_isAscii {cs : List Char} (h : isAscii cs) : spelled cs = cs := by
  induction cs with
  | nil => rfl
  | cons c cs ih =>
    rw [isAscii, List.all_cons, Bool.and_eq_true, decide_eq_true_eq] at h
    rw [spelled_cons_of_ascii h.1, ih h.2]

/-- The letter of a byte has its number. -/
theorem toNat_letter (b : UInt8) : (Char.ofNat b.toNat).toNat = b.toNat := by
  have hall : ∀ n ∈ List.range 0x100, (Char.ofNat n).toNat = n := by decide +kernel
  exact hall b.toNat (List.mem_range.2 b.toNat_lt)

/-! ## Pieces -/

/-- Whether a character is escaped in a string. -/
def isEscaped (c : Char) : Bool := c = '"' ∨ c = '\\' ∨ c.toNat < 0x20

/-- The pieces that a character is read as. -/
def Piece.ofChar (c : Char) : List Piece :=
  if isEscaped c then [.escaped c.toNat] else (String.utf8EncodeChar c).map .plain

theorem lt_of_isEscaped {c : Char} (h : isEscaped c) : c.toNat < 0x80 := by
  simp only [isEscaped, decide_eq_true_eq] at h
  rcases h with rfl | rfl | h
  · decide
  · decide
  · omega

/-- The pieces that a text is read as. -/
def Piece.ofText (s : String) : List Piece := s.toList.flatMap ofChar

/-- Whether letters are an escape of a code unit: a backslash and one letter that stands for it, or
a backslash, the letter `u` and four digits. -/
def isEscapeOf (unit : Nat) : List Char → Bool
  | [first, letter] => first = '\\' ∧ letter ≠ 'u' ∧ shortEscape? letter = some unit
  | [first, second, a, b, c, d] =>
    first = '\\' ∧ second = 'u' ∧ codeUnit? a b c d = some unit
  | _ => false

theorem readString_of_isEscapeOf {unit : Nat} {cs : List Char} (h : isEscapeOf unit cs)
    (tail : List Char) : readString (cs ++ tail)
      = (readString tail).map fun (later, rest) => (.escaped unit :: later, rest) := by
  unfold isEscapeOf at h
  split at h
  next first letter =>
    obtain ⟨rfl, hletter, hunit⟩ := of_decide_eq_true h
    rw [List.cons_append, List.singleton_append, readString, hunit]
    · cases readString tail <;> rfl
    · simp [hletter]
  next first second a b c d =>
    obtain ⟨rfl, rfl, hunit⟩ := of_decide_eq_true h
    simp only [List.cons_append, List.nil_append]
    rw [readString, hunit]
    cases readString tail <;> rfl
  next => cases h

/-- A letter that is no quotation mark and begins no escape is read as it is. -/
theorem readString_cons {c : Char} (hquote : c ≠ '"') (hescape : c ≠ '\\') (tail : List Char) :
    readString (c :: tail)
      = (readString tail).map fun (later, rest) =>
          (.plain (UInt8.ofNat c.toNat) :: later, rest) := by
  rw [readString]
  · cases readString tail <;> simp [hescape]
  all_goals simp [hquote, hescape]

theorem readString_letters {data : Bytes}
    (h : ∀ b ∈ data, b.toNat ≠ 0x22 ∧ b.toNat ≠ 0x5C) (tail : List Char) :
    readString (Node.letters data ++ tail)
      = (readString tail).map fun (later, rest) => (data.map .plain ++ later, rest) := by
  induction data with
  | nil => cases hread : readString tail <;> simp [Node.letters, hread]
  | cons b data ih =>
    obtain ⟨hquote, hescape⟩ := h b List.mem_cons_self
    have hcons : Node.letters (b :: data) ++ tail
        = Char.ofNat b.toNat :: (Node.letters data ++ tail) := rfl
    rw [hcons, readString_cons, ih fun x hx => h x (List.mem_cons_of_mem _ hx), toNat_letter]
    · cases readString tail <;> simp
    · intro heq
      exact hquote (by rw [← toNat_letter b, heq]; rfl)
    · intro heq
      exact hescape (by rw [← toNat_letter b, heq]; rfl)

/-- Every escape is ASCII, and is read as the code unit of its character. -/
theorem isEscapeOf_escapeChar {c : Char} (h : isEscaped c) :
    isEscapeOf c.toNat (escapeChar c) ∧ isAscii (escapeChar c) := by
  have hall : ∀ n ∈ List.range 0x80, isEscaped (Char.ofNat n) →
      isEscapeOf n (escapeChar (Char.ofNat n)) ∧ isAscii (escapeChar (Char.ofNat n)) := by
    decide +kernel
  have hc := hall c.toNat (List.mem_range.2 (lt_of_isEscaped h))
  rw [Char.ofNat_toNat] at hc
  exact hc h

/-- A character that is not escaped stands as it is. -/
theorem escapeChar_of_not_isEscaped {c : Char} (h : isEscaped c = false) : escapeChar c = [c] := by
  simp only [isEscaped, decide_eq_false_iff_not, not_or] at h
  obtain ⟨hquote, hbackslash, hcontrol⟩ := h
  unfold escapeChar
  rw [if_neg hquote, if_neg hbackslash, if_neg (by omega), if_neg (by omega), if_neg (by omega),
    if_neg (by omega), if_neg (by omega), if_neg hcontrol]

/-- No byte of a character that is not escaped is a quotation mark, a backslash or a control
character. -/
theorem bytes_of_not_isEscaped {c : Char} (h : isEscaped c = false) :
    ∀ b ∈ String.utf8EncodeChar c, b.toNat ≠ 0x22 ∧ b.toNat ≠ 0x5C ∧ 0x20 ≤ b.toNat := by
  intro b hb
  simp only [isEscaped, decide_eq_false_iff_not, not_or] at h
  obtain ⟨hquote, hbackslash, hcontrol⟩ := h
  by_cases hascii : c.toNat < 0x80
  · rw [Text.Utf8.utf8EncodeChar_of_ascii hascii, List.mem_singleton] at hb
    subst hb
    rw [UInt8.toNat_ofNat', Nat.mod_eq_of_lt (by omega)]
    refine ⟨fun h => hquote ?_, fun h => hbackslash ?_, by omega⟩
    · exact Char.toNat_inj.1 h
    · exact Char.toNat_inj.1 h
  · have hle := Text.Utf8.le_toNat_of_mem_utf8EncodeChar (by omega) hb
    omega

/-- **A character is read as its pieces.** -/
theorem readString_escapeChar (c : Char) (tail : List Char) :
    readString (spelled (escapeChar c) ++ tail)
      = (readString tail).map fun (later, rest) => (Piece.ofChar c ++ later, rest) := by
  unfold Piece.ofChar
  cases hescaped : isEscaped c with
  | true =>
    obtain ⟨hescape, hascii⟩ := isEscapeOf_escapeChar hescaped
    rw [spelled_of_isAscii hascii, readString_of_isEscapeOf hescape]
    rfl
  | false =>
    rw [escapeChar_of_not_isEscaped hescaped]
    have hbytes := bytes_of_not_isEscaped hescaped
    unfold spelled
    rw [List.flatMap_singleton, readString_letters fun b hb =>
      ⟨(hbytes b hb).1, (hbytes b hb).2.1⟩]
    rfl

/-- **A text is read as its pieces.** -/
theorem readString_stringText (s : String) (rest : List Char) :
    readString (spelled (s.toList.flatMap escapeChar ++ ['"']) ++ rest)
      = some (Piece.ofText s, rest) := by
  unfold Piece.ofText
  induction s.toList with
  | nil => rfl
  | cons c cs ih =>
    rw [List.flatMap_cons, List.append_assoc, spelled_append, List.append_assoc,
      readString_escapeChar, ih]
    rfl

/-! ## What the pieces mean -/

theorem Piece.wellFormed_ofText (s : String) : Piece.wellFormed (Piece.ofText s) := by
  unfold Piece.wellFormed Piece.ofText Piece.ofChar
  rw [List.all_flatMap, List.all_eq_true]
  intro c _
  cases hescaped : isEscaped c with
  | true => rfl
  | false =>
    rw [if_neg (by simp), List.all_map, List.all_eq_true]
    intro b hb
    have hle := (bytes_of_not_isEscaped hescaped b hb).2.2
    simp [Piece.isRawControl, UInt8.le_iff_toNat_le, hle]

/-- An escape of a code unit that is no surrogate stands for its own code point. -/
theorem Piece.bytes_escaped_cons {unit : Nat} (h : unit < 0x80) (later : List Piece) :
    Piece.bytes (.escaped unit :: later) = UInt8.ofNat unit :: Piece.bytes later := by
  have hhigh : isHighSurrogate unit = false := by
    simp only [isHighSurrogate, Bool.and_eq_false_iff, decide_eq_false_iff_not]
    omega
  have hpoint : Piece.pointBytes unit = [UInt8.ofNat unit] := if_pos h
  rcases later with _ | ⟨byte | low, later⟩
  · simp [Piece.bytes, hpoint]
  · simp [Piece.bytes, hpoint]
  · simp [Piece.bytes, hpoint, hhigh]

theorem Piece.bytes_plain_append (data : Bytes) (later : List Piece) :
    Piece.bytes (data.map .plain ++ later) = data ++ Piece.bytes later := by
  induction data with
  | nil => rfl
  | cons b data ih => rw [List.map_cons, List.cons_append, Piece.bytes, ih, List.cons_append]

theorem Piece.bytes_ofText (s : String) : Piece.bytes (Piece.ofText s) = Text.Utf8.encode s := by
  rw [← String.ofList_toList (s := s), Text.Utf8.encode_ofList, String.ofList_toList]
  unfold Piece.ofText
  induction s.toList with
  | nil => rfl
  | cons c cs ih =>
    rw [List.flatMap_cons, List.flatMap_cons, ofChar]
    cases hescaped : isEscaped c with
    | true =>
      have hlt := lt_of_isEscaped hescaped
      rw [if_pos rfl, List.singleton_append, Piece.bytes_escaped_cons hlt, ih,
        Text.Utf8.utf8EncodeChar_of_ascii hlt]
      rfl
    | false => rw [if_neg (by simp), Piece.bytes_plain_append, ih]

/-- **The pieces of a text mean that text.** -/
theorem Piece.text?_ofText (s : String) : Piece.text? (Piece.ofText s) = some s := by
  unfold Piece.text?
  rw [if_pos (Piece.wellFormed_ofText s), Piece.bytes_ofText, Text.Utf8.decode?_encode]

theorem Piece.ofText_inj {s t : String} (h : ofText s = ofText t) : s = t :=
  Option.some.inj (by rw [← text?_ofText s, h, text?_ofText])

end Json

end CommitLog
