import CommitLog.Json.Node.Parse

/-!
# Integers in a JSON text, there and back

An integer is written as its sign and its digits, without leading zeros, and is read as these in
front of whatever may follow a value (`readNumber_integerText`). They mean the integer that was
written as long as it fits 64 bits, signed or unsigned (`NumberLiteral.value?_ofInteger`).
-/

namespace CommitLog

namespace Decimal

/-! ## Digits -/

theorem readDigits_map_digit {digits : List Nat} {rest : List Char}
    (hdigits : ∀ d ∈ digits, d < 10) (hrest : ∀ c ∈ rest.head?, value? c = none) :
    readDigits (digits.map digit ++ rest) = (digits, rest) := by
  induction digits with
  | nil =>
    cases rest with
    | nil => rfl
    | cons c rest =>
      have hc := hrest c rfl
      simp only [List.map_nil, List.nil_append, readDigits, hc]
  | cons d later ih =>
    have hd := value?_digit (hdigits d List.mem_cons_self)
    have hlater := ih fun x hx => hdigits x (List.mem_cons_of_mem _ hx)
    rw [List.map_cons, List.cons_append]
    simp only [readDigits, hd, hlater]

theorem readDigits_text (n : Nat) {rest : List Char} (h : ∀ c ∈ rest.head?, value? c = none) :
    readDigits (text n ++ rest) = (digitsOf n, rest) :=
  readDigits_map_digit (fun _ hd => lt_ten_of_mem_digitsOf hd) h

theorem digitsOf_zero : digitsOf 0 = [0] := by
  unfold digitsOf
  rfl

/-- The digits of a positive number do not begin with a zero. -/
theorem exists_cons_digitsOf {n : Nat} (h : 0 < n) :
    ∃ d later, digitsOf n = d :: later ∧ d ≠ 0 := by
  fun_induction digitsOf n with
  | case1 n hn => exact ⟨n, [], rfl, by omega⟩
  | case2 n hn ih =>
    obtain ⟨d, later, hdigits, hd⟩ := ih (by omega)
    exact ⟨d, later ++ [n % 10], by rw [hdigits, List.cons_append], hd⟩

theorem text_ne_nil (n : Nat) : text n ≠ [] := by
  unfold text digitsOf
  split <;> simp

theorem toNat_digit {d : Nat} (h : d < 10) : (digit d).toNat = 0x30 + d := by
  have hall : ∀ m ∈ List.range 10, (digit m).toNat = 0x30 + m := by decide
  exact hall d (List.mem_range.2 h)

theorem toNat_of_mem_text {n : Nat} {c : Char} (h : c ∈ text n) :
    0x30 ≤ c.toNat ∧ c.toNat < 0x3A := by
  obtain ⟨d, hd, rfl⟩ := List.mem_map.1 h
  have hlt := lt_ten_of_mem_digitsOf hd
  rw [toNat_digit hlt]
  omega

end Decimal

namespace Json

/-! ## Reading -/

/-- What may follow a value inside a text: nothing, a comma, or a closing bracket. -/
def Ends (rest : List Char) : Prop := ∀ c ∈ rest.head?, c = ',' ∨ c = ']' ∨ c = '}'

theorem ends_nil : Ends [] := by simp [Ends]

theorem ends_cons {c : Char} (h : c = ',' ∨ c = ']' ∨ c = '}') (rest : List Char) :
    Ends (c :: rest) := by
  simpa [Ends] using h

theorem readWhole_text (n : Nat) {rest : List Char} (h : Ends rest) :
    readWhole (Decimal.text n ++ rest) = some (Decimal.digitsOf n, rest) := by
  have hdigits : Decimal.readDigits (Decimal.text n ++ rest) = (Decimal.digitsOf n, rest) := by
    refine Decimal.readDigits_text n fun c hc => ?_
    rcases h c hc with rfl | rfl | rfl <;> rfl
  unfold readWhole readDigits1
  rw [hdigits]
  rcases Nat.eq_zero_or_pos n with rfl | hpos
  · rw [Decimal.digitsOf_zero]
    rfl
  · obtain ⟨d, later, hcons, hd⟩ := Decimal.exists_cons_digitsOf hpos
    rw [hcons]
    simp only
    split
    next heq =>
      simp only [Option.some.injEq, Prod.mk.injEq, List.cons.injEq] at heq
      exact absurd heq.1.1 hd
    next => rfl

theorem readFraction_of_ends {rest : List Char} (h : Ends rest) :
    readFraction rest = some (none, rest) := by
  unfold readFraction
  split
  next => simp [Ends] at h
  next => rfl

theorem readExponent_of_ends {rest : List Char} (h : Ends rest) :
    readExponent rest = some (none, rest) := by
  unfold readExponent
  split
  next c rest =>
    refine if_neg ?_
    rcases h c rfl with rfl | rfl | rfl <;> decide
  next => rfl

/-- The number that an integer is written as. -/
def NumberLiteral.ofInteger (n : Int) : NumberLiteral :=
  { negative := n < 0, whole := Decimal.digitsOf n.natAbs, fraction := none, exponent := none }

theorem NumberLiteral.ofInteger_inj {m n : Int} (h : ofInteger m = ofInteger n) : m = n := by
  simp only [ofInteger, mk.injEq, decide_eq_decide, and_true] at h
  obtain ⟨hsign, hdigits⟩ := h
  have hmagnitude : m.natAbs = n.natAbs := by
    rw [← Decimal.ofDigits_digitsOf m.natAbs, hdigits, Decimal.ofDigits_digitsOf]
  omega

/-- **An integer is read as its sign and its digits.** -/
theorem readNumber_integerText (n : Int) {rest : List Char} (h : Ends rest) :
    readNumber (Number.integerText n ++ rest) = some (.ofInteger n, rest) := by
  unfold Number.integerText NumberLiteral.ofInteger
  by_cases hn : n < 0
  · simp [readNumber, hn, readWhole_text _ h, readFraction_of_ends h, readExponent_of_ends h]
  · rw [if_neg hn]
    cases htext : Decimal.text n.natAbs with
    | nil => exact absurd htext (Decimal.text_ne_nil _)
    | cons c later =>
      have hwhole := readWhole_text n.natAbs h
      rw [htext, List.cons_append] at hwhole
      have hsign : c ≠ '-' := by
        rintro rfl
        have := Decimal.toNat_of_mem_text (htext ▸ List.mem_cons_self)
        simp at this
      simp [readNumber, hn, hsign, hwhole, readFraction_of_ends h, readExponent_of_ends h]

/-! ## What the digits mean -/

namespace NumberLiteral

theorem le_foldl (digits : List Nat) (n : Nat) :
    n ≤ digits.foldl (fun n d => 10 * n + d) n := by
  induction digits generalizing n with
  | nil => exact Nat.le_refl n
  | cons d later ih => exact Nat.le_trans (by omega) (ih (10 * n + d))

/-- Digits of a number that fits 64 bits are all taken. -/
theorem absorb_eq {digits : List Nat} {n : Nat}
    (h : digits.foldl (fun n d => 10 * n + d) n < unsignedBound) :
    absorb n digits = (digits.foldl (fun n d => 10 * n + d) n, []) := by
  induction digits generalizing n with
  | nil => rfl
  | cons d later ih =>
    have hfits : 10 * n + d < unsignedBound := Nat.lt_of_le_of_lt (le_foldl later _) h
    unfold absorb
    rw [if_pos hfits, ih h]
    rfl

theorem absorb_digitsOf {n : Nat} (h : n < unsignedBound) :
    absorb 0 (Decimal.digitsOf n) = (n, []) := by
  have hvalue := Decimal.ofDigits_digitsOf n
  unfold Decimal.ofDigits at hvalue
  rw [absorb_eq (by rwa [hvalue]), hvalue]

/-- **The digits of an integer that fits 64 bits mean that integer.** -/
theorem value?_ofInteger {n : Int} (hlow : -(signedBound : Int) ≤ n) (hhigh : n < unsignedBound) :
    (ofInteger n).value? = some (.integer n) := by
  have hfits : n.natAbs < unsignedBound := by
    simp only [signedBound, unsignedBound, UInt64.size] at *
    omega
  unfold value? ofInteger
  simp only [absorb_digitsOf hfits]
  by_cases hn : n < 0
  · have hmagnitude : ¬(n.natAbs = 0 ∨ signedBound < n.natAbs) := by
      simp only [signedBound] at *
      omega
    rw [if_neg (by simp), if_neg (by simpa using hn), if_neg hmagnitude]
    congr 2
    simp only [Int.ofNat_eq_natCast]
    omega
  · rw [if_neg (by simp), if_pos (by simpa using hn)]
    congr 2
    simp only [Int.ofNat_eq_natCast]
    omega

end NumberLiteral

end Json

end CommitLog
