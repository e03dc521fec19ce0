import CommitLog.Text.Hex

/-!
# Identifiers

An identifier names one committed unit by two 64-bit halves. New identifiers come from a source
that never repeats itself and are laid out as version 4, variant 2 universally unique
identifiers: four fixed bits in the high half, two in the low half.
-/

namespace CommitLog

/-- The name of a committed unit: a high and a low half. -/
structure Identifier where
  hi : UInt64
  lo : UInt64
deriving DecidableEq, Repr, Inhabited

namespace Identifier

/-- Thirty-two hexadecimal digits, high half first. -/
def display (id : Identifier) : String :=
  Text.Hex.padded 16 id.hi.toNat ++ Text.Hex.padded 16 id.lo.toNat

/-- Identifiers are ordered by their high halves, then by their low ones. -/
instance : Ord Identifier where
  compare a b := (compare a.hi b.hi).then (compare a.lo b.lo)

/-- Whether the fixed bits say version 4 and variant 2. -/
def isRandomLayout (id : Identifier) : Bool :=
  id.hi >>> 12 &&& 0xF == 4 && id.lo >>> 62 == 2

/-- Where fresh identifiers come from: a count of those already drawn. -/
structure Source where
  drawn : Nat := 0
deriving DecidableEq, Repr, Inhabited

/-- The high half of every fresh identifier: only the version bits are set. -/
def freshHigh : UInt64 := 0x4000

/-- The `n`-th fresh identifier: the count fills the free bits of the low half. -/
def fresh (n : Nat) : Identifier :=
  ⟨freshHigh, UInt64.ofNat (0x8000000000000000 + n % 0x4000000000000000)⟩

/-- Draws the next identifier. -/
def Source.next (source : Source) : Identifier × Source :=
  (fresh source.drawn, { source with drawn := source.drawn + 1 })

/-- Draws `n` identifiers, first drawn first. -/
def Source.take : Nat → Source → List Identifier
  | 0, _ => []
  | n + 1, source => source.next.1 :: take n source.next.2

end Identifier

end CommitLog
