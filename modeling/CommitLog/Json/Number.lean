import CommitLog.Decimal.Shortest

/-!
# JSON numbers

A number in a JSON text is a sign, digits, and perhaps a fraction and an exponent. As a value it
is an integer if it is written as one and fits 64 bits, signed or unsigned; every other number is
a finite binary64 number.

Such a number is made from the digits in front that together fit 64 bits. They are rounded to
binary64 and then multiplied or divided once by the rounded power of ten. A number beyond the
range of binary64 is refused.

Written out, a binary64 number has the fewest digits that name it. It is positional from `1e-5` to
below `1e16` and has an exponent with a sign otherwise.
-/

namespace CommitLog.Json

/-- A number in a JSON text. -/
structure NumberLiteral where
  negative : Bool
  /-- The digits in front of the point. -/
  whole : List Nat
  /-- The digits behind the point, if there is one. -/
  fraction : Option (List Nat)
  /-- The exponent, if there is one. -/
  exponent : Option Int
deriving DecidableEq, Repr, Inhabited

/-- The value of a number. -/
inductive Number where
  | integer (n : Int)
  | double (x : Binary64)
deriving DecidableEq, Repr, Inhabited

/-- Above every unsigned 64-bit number. -/
def unsignedBound : Nat := UInt64.size

/-- The magnitude of the least signed 64-bit number. -/
def signedBound : Nat := 0x8000000000000000

/-! ## Reading the value -/

namespace NumberLiteral

/-- Appends digits to a significand as long as it fits 64 bits; the second part is what is left. -/
def absorb : Nat → List Nat → Nat × List Nat
  | significand, [] => (significand, [])
  | significand, d :: rest =>
    if 10 * significand + d < unsignedBound then absorb (10 * significand + d) rest
    else (significand, d :: rest)

/-- The rounded `10 ^ n`. -/
def powerOfTen (n : Nat) : Binary64 := (Binary64.ofRatio? (Decimal.powerOfTen n) 1).getD Binary64.zero

/-- The largest power of ten in the range of binary64. -/
def maxPower : Nat := 308

/-- Divides by the largest power of ten in range, `n` times or until nothing is left. -/
def divideByMaxPower? : Nat → Binary64 → Option Binary64
  | 0, x => some x
  | n + 1, x =>
    if x.isZero then some x else (x.div? (powerOfTen maxPower)).bind (divideByMaxPower? n)

/-- Multiplies or divides by `10 ^ exponent`. A power of ten out of range is divided by in steps,
and makes a product that is out of range unless it is zero. -/
def scale? (x : Binary64) (exponent : Int) : Option Binary64 :=
  let power := exponent.natAbs
  if 0 ≤ exponent then
    if power ≤ maxPower then x.mul? (powerOfTen power)
    else if x.isZero then some x
    else none
  else
    let steps := (power - 1) / maxPower
    (divideByMaxPower? steps x).bind fun x => x.div? (powerOfTen (power - steps * maxPower))

/-- The binary64 number `significand * 10 ^ exponent` with a sign. -/
def double? (negative : Bool) (significand : Nat) (exponent : Int) : Option Number := do
  let whole ← Binary64.ofRatio? significand 1
  let x ← scale? whole exponent
  return .double (x.withSign negative)

/-- The value of a number, none if it is out of range. -/
def value? (literal : NumberLiteral) : Option Number :=
  let (significand, dropped) := absorb 0 literal.whole
  match literal.fraction, literal.exponent with
  | none, none =>
    if dropped ≠ [] then double? literal.negative significand (Int.ofNat dropped.length)
    else if !literal.negative then some (.integer (Int.ofNat significand))
    else if significand = 0 ∨ signedBound < significand then double? true significand 0
    else some (.integer (-(Int.ofNat significand)))
  | fraction, exponent =>
    let digits := fraction.getD []
    let (significand, ignored) := absorb significand digits
    let taken := digits.length - ignored.length
    double? literal.negative significand
      (Int.ofNat dropped.length - Int.ofNat taken + exponent.getD 0)

end NumberLiteral

/-! ## Writing -/

/-- How a binary64 number is laid out. -/
structure NumberLayout where
  /-- Positional while the point stands at most this far right of the first digit. -/
  maxPoint : Int
  /-- Positional while the point stands further right than this. -/
  minPoint : Int
deriving DecidableEq, Repr, Inhabited

/-- Positional from `0.00001` to sixteen digits in front of the point. -/
def Number.layout : NumberLayout := ⟨16, -5⟩

namespace Number

/-- The text of an integer. -/
def integerText (n : Int) : List Char :=
  if n < 0 then '-' :: Decimal.text n.natAbs else Decimal.text n.natAbs

/-- The sign and digits of an exponent. -/
def exponentText (n : Int) : List Char :=
  (if n < 0 then '-' else '+') :: Decimal.text n.natAbs

/-- The text of `digits * 10 ^ exponent`. -/
def magnitudeText (digits : List Char) (exponent : Int) : List Char :=
  let point := Int.ofNat digits.length + exponent
  if 0 ≤ exponent ∧ point ≤ layout.maxPoint then
    digits ++ List.replicate exponent.toNat '0' ++ ['.', '0']
  else if 0 < point ∧ point ≤ layout.maxPoint then
    digits.take point.toNat ++ '.' :: digits.drop point.toNat
  else if layout.minPoint < point ∧ point ≤ 0 then
    '0' :: '.' :: (List.replicate (-point).toNat '0' ++ digits)
  else
    let mantissa :=
      match digits with
      | first :: second :: rest => first :: '.' :: second :: rest
      | digits => digits
    mantissa ++ 'e' :: exponentText (point - 1)

/-- The text of a binary64 number. -/
def doubleText (x : Binary64) : List Char :=
  let decimal := Decimal.Shortest.ofBinary64 x
  let magnitude := magnitudeText (Decimal.text decimal.significand) decimal.exponent
  if x.negative then '-' :: magnitude else magnitude

/-- The text of a number. -/
def text : Number → List Char
  | integer n => integerText n
  | double x => doubleText x

end Number

end CommitLog.Json
