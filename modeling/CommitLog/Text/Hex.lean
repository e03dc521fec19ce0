import CommitLog.Bytes

/-!
# Hexadecimal text

Numbers in a fixed count of lowercase digits, and bytes two digits each.
-/

namespace CommitLog.Text.Hex

/-- The lowercase digit of a value below sixteen. -/
def digit (n : Nat) : Char := Char.ofNat (if n < 10 then 0x30 + n else 0x57 + n)

/-- The value of a digit, of either case. -/
def value? (c : Char) : Option Nat :=
  let n := c.toNat
  if 0x30 ≤ n ∧ n ≤ 0x39 then some (n - 0x30)
  else if 0x61 ≤ n ∧ n ≤ 0x66 then some (n - 0x57)
  else if 0x41 ≤ n ∧ n ≤ 0x46 then some (n - 0x37)
  else none

theorem value?_digit {n : Nat} (h : n < 16) : value? (digit n) = some n := by
  have hall : ∀ m ∈ List.range 16, value? (digit m) = some m := by decide
  exact hall n (List.mem_range.2 h)

/-- The `width` low digits of `n`, most significant first, in front of `tail`. -/
def digits : Nat → Nat → List Char → List Char
  | 0, _, tail => tail
  | width + 1, n, tail => digits width (n / 16) (digit (n % 16) :: tail)

/-- `n` in exactly `width` digits. -/
def padded (width n : Nat) : String := String.ofList (digits width n [])

/-- How many digits `n` takes without leading zeros; zero takes one. -/
def width (n : Nat) : Nat := n.log2 / 4 + 1

/-- `n` without leading zeros. -/
def ofNat (n : Nat) : String := padded (width n) n

/-- Two digits for every byte. -/
def ofBytes (data : Bytes) : String :=
  String.ofList (data.flatMap fun b => [digit (b.toNat / 16), digit (b.toNat % 16)])

end CommitLog.Text.Hex
