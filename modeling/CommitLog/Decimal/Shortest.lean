import CommitLog.Binary64
import CommitLog.Decimal

/-!
# The shortest decimal that reads back

Among the decimals that round to a given binary64 number, those with the fewest digits are
sought, and of them the nearest; of two equally near the one whose last digit is even.

For each count of digits there is a grid of decimals around the number. If any point of the grid
rounds to the number, then one of the two points next to the number does, so only those two are
tried, in exact arithmetic.
-/

namespace CommitLog.Decimal.Shortest

/-- The decimal `significand * 10 ^ exponent`. -/
structure Scaled where
  significand : Nat
  exponent : Int
deriving DecidableEq, Repr, Inhabited

/-- The reals that round to a number: it and both ends over one denominator, and whether the ends
belong to them. -/
structure Interval where
  low : Nat
  value : Nat
  high : Nat
  den : Nat
  closed : Bool
deriving DecidableEq, Repr, Inhabited

/-- The reals that round to the magnitude of a number. Below a power of two the numbers lie twice
as close. -/
def interval (x : Binary64) : Interval :=
  let below :=
    if x.significand = 1 <<< (Binary64.precision - 1) ∧ Binary64.minExponent < x.exponent
    then 1 else 2
  let scale := 1 <<< x.exponent.toNat
  { low := (4 * x.significand - below) * scale
    value := 4 * x.significand * scale
    high := (4 * x.significand + 2) * scale
    den := 4 <<< (-x.exponent).toNat
    closed := x.significand % 2 = 0 }

/-- The interval in units of `10 ^ exponent`. -/
def Interval.inUnits (i : Interval) (exponent : Int) : Interval :=
  let up := powerOfTen (-exponent).toNat
  { i with
    low := i.low * up, value := i.value * up, high := i.high * up
    den := i.den * powerOfTen exponent.toNat }

/-- Whether an integer lies in the interval. -/
def Interval.holds (i : Interval) (n : Nat) : Bool :=
  if i.closed then i.low ≤ n * i.den && n * i.den ≤ i.high
  else i.low < n * i.den && n * i.den < i.high

/-- The better of the two integers next to the value, if one lies in the interval. -/
def Interval.nearest? (i : Interval) : Option Nat :=
  let below := i.value / i.den
  let above := below + 1
  let toBelow := i.value - below * i.den
  let toAbove := above * i.den - i.value
  let belowFirst := toBelow < toAbove ∨ (toBelow = toAbove ∧ below % 2 = 0)
  let (first, second) := if belowFirst then (below, above) else (above, below)
  if i.holds first then some first
  else if i.holds second then some second
  else none

/-- The power of ten of the leading digit of `num / den`. -/
def leadingExponent (num den : Nat) : Int :=
  let guess : Int := (((num.log2 : Int) - den.log2) * 30103).fdiv 100000
  let least (e : Int) : Bool := den * powerOfTen e.toNat ≤ num * powerOfTen (-e).toNat
  if least (guess + 1) then guess + 1
  else if least guess then guess
  else guess - 1

/-- Takes zeros off the end of a significand. -/
def trim : Nat → Scaled → Scaled
  | 0, d => d
  | fuel + 1, d =>
    if d.significand ≠ 0 ∧ d.significand % 10 = 0
    then trim fuel ⟨d.significand / 10, d.exponent + 1⟩
    else d

/-- No binary64 number takes more digits to read back. -/
def maxDigits : Nat := 17

/-- The shortest decimal that reads back as the magnitude of a number. -/
def ofBinary64 (x : Binary64) : Scaled :=
  if x.significand = 0 then ⟨0, 0⟩
  else
    let i := interval x
    let leading := leadingExponent i.value i.den
    let found := (List.range maxDigits).findSome? fun digits =>
      let exponent := leading - Int.ofNat digits
      ((i.inUnits exponent).nearest?).map fun n => trim maxDigits ⟨n, exponent⟩
    found.getD ⟨0, 0⟩

end CommitLog.Decimal.Shortest
