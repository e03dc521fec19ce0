/-!
# Decimal text of natural numbers

The digits of a number without leading zeros, and the number that a row of digits names.
-/

namespace CommitLog.Decimal

/-- The digit of a value below ten. -/
def digit (n : Nat) : Char := Char.ofNat (0x30 + n)

/-- The value of a digit. -/
def value? (c : Char) : Option Nat :=
  if 0x30 ≤ c.toNat ∧ c.toNat ≤ 0x39 then some (c.toNat - 0x30) else none

theorem value?_digit {n : Nat} (h : n < 10) : value? (digit n) = some n := by
  have hall : ∀ m ∈ List.range 10, value? (digit m) = some m := by decide
  exact hall n (List.mem_range.2 h)

/-- The number that is written as a one and `n` zeros. -/
def powerOfTen (n : Nat) : Nat := Nat.pow 10 n

/-- The values of the digits of `n`, most significant first; zero has one digit. -/
def digitsOf (n : Nat) : List Nat :=
  if n < 10 then [n] else digitsOf (n / 10) ++ [n % 10]
termination_by n
decreasing_by omega

/-- The number that a row of digit values names. -/
def ofDigits (digits : List Nat) : Nat := digits.foldl (fun n d => 10 * n + d) 0

theorem ofDigits_digitsOf (n : Nat) : ofDigits (digitsOf n) = n := by
  fun_induction digitsOf n with
  | case1 n h => simp [ofDigits]
  | case2 n h ih =>
    simp only [ofDigits, List.foldl_append, List.foldl_cons, List.foldl_nil] at ih ⊢
    rw [ih]
    omega

theorem lt_ten_of_mem_digitsOf {n d : Nat} (h : d ∈ digitsOf n) : d < 10 := by
  fun_induction digitsOf n with
  | case1 n hn =>
    simp only [List.mem_singleton] at h
    omega
  | case2 n hn ih =>
    rcases List.mem_append.1 h with h | h
    · exact ih h
    · simp only [List.mem_singleton] at h
      omega

/-- The text of `n`. -/
def text (n : Nat) : List Char := (digitsOf n).map digit

/-- Digit values from the front of a text, up to the first character that is no digit. -/
def readDigits : List Char → List Nat × List Char
  | [] => ([], [])
  | c :: rest =>
    match value? c with
    | none => ([], c :: rest)
    | some d =>
      let (later, rest) := readDigits rest
      (d :: later, rest)

end CommitLog.Decimal
