/-!
# Finite binary64 numbers

A finite number is a sign, a significand below 2^53 and a power of two; either the significand is
at least 2^52 or the power is the least one, so every number but zero has one form. Every
operation rounds the exact result to the nearest number, a tie going to the even significand. The
arithmetic is that of natural numbers throughout.
-/

namespace CommitLog

/-- A finite binary64 number, `significand * 2 ^ exponent` with a sign. -/
structure Binary64 where
  negative : Bool
  significand : Nat
  exponent : Int
deriving DecidableEq, Repr, Inhabited

namespace Binary64

/-- Bits of a significand. -/
def precision : Nat := 53

/-- The power of two of the numbers next to zero. -/
def minExponent : Int := -1074

/-- The power of two of the largest numbers. -/
def maxExponent : Int := 971

/-- Zero, with no sign. -/
def zero : Binary64 := ⟨false, 0, minExponent⟩

/-- Whether the number is zero, of either sign. -/
def isZero (x : Binary64) : Bool := x.significand == 0

/-- The number with its sign set. -/
def withSign (negative : Bool) (x : Binary64) : Binary64 := { x with negative }

/-- The integer nearest to `num / den`; a tie goes to the even one. -/
def divideToEven (num den : Nat) : Nat :=
  let q := num / den
  let twice := 2 * (num % den)
  if twice < den ∨ (twice = den ∧ q % 2 = 0) then q else q + 1

/-- The power of two at which `num / den` has a significand of full length, or the least one. -/
def exponentFor (num den : Nat) : Int :=
  let guess : Int := (num.log2 : Int) - den.log2 - (precision - 1 : Nat)
  let whole := (num <<< (-guess).toNat) / (den <<< guess.toNat)
  max minExponent (if whole < 1 <<< (precision - 1) then guess - 1 else guess)

/-- The number nearest to `num / den`, none if that is out of range. -/
def ofRatio? (num den : Nat) : Option Binary64 :=
  if num = 0 then some zero
  else
    let exponent := exponentFor num den
    let rounded := divideToEven (num <<< (-exponent).toNat) (den <<< exponent.toNat)
    let (significand, exponent) :=
      if rounded = 1 <<< precision then (1 <<< (precision - 1), exponent + 1)
      else (rounded, exponent)
    if maxExponent < exponent then none else some ⟨false, significand, exponent⟩

/-- The numerator of the magnitude. -/
def num (x : Binary64) : Nat := x.significand <<< x.exponent.toNat

/-- The denominator of the magnitude. -/
def den (x : Binary64) : Nat := 1 <<< (-x.exponent).toNat

/-- The magnitude of a product, none if it is out of range. -/
def mul? (x y : Binary64) : Option Binary64 := ofRatio? (x.num * y.num) (x.den * y.den)

/-- The magnitude of a quotient, none if it is out of range. -/
def div? (x y : Binary64) : Option Binary64 := ofRatio? (x.num * y.den) (x.den * y.num)

end Binary64

end CommitLog
