import CommitLog.Json.Value
import CommitLog.Text.Utf8

/-!
# JSON texts as trees

A node says what stands in a JSON text, before anyone has asked what it is to mean. The same
string may be wanted as text, where its bytes have to be UTF-8 and every escape has to name a
character, or as bytes, where none of this is asked; a number may be wanted as an integer or not
at all. What nobody wants is only checked for its form.
-/

namespace CommitLog.Json

/-- A piece of a string in a JSON text: a byte as it is, or the code unit of an escape. -/
inductive Piece where
  | plain (byte : UInt8)
  | escaped (unit : Nat)
deriving DecidableEq, Repr, Inhabited

/-- A part of a JSON text. -/
inductive Node where
  | null
  | bool (b : Bool)
  | number (literal : NumberLiteral)
  | string (pieces : List Piece)
  | array (items : List Node)
  | object (members : List (List Piece × Node))
deriving Repr, Inhabited

/-! ## Strings -/

/-- Whether a code unit is the first of a surrogate pair. -/
def isHighSurrogate (unit : Nat) : Bool := 0xD800 ≤ unit && unit < 0xDC00

/-- Whether a code unit is the second of a surrogate pair. -/
def isLowSurrogate (unit : Nat) : Bool := 0xDC00 ≤ unit && unit < 0xE000

/-- The code point that a surrogate pair stands for. -/
def pairPoint (high low : Nat) : Nat := 0x10000 + (high - 0xD800) * 0x400 + (low - 0xDC00)

namespace Piece

/-- Whether a control character stands in the text as it is. -/
def isRawControl : Piece → Bool
  | plain byte => byte < 0x20
  | escaped _ => false

/-- The bytes of a code point, surrogates included. -/
def pointBytes (point : Nat) : Bytes :=
  let tail (shift : Nat) : UInt8 := UInt8.ofNat (0x80 + (point >>> shift) % 64)
  if point < 0x80 then [UInt8.ofNat point]
  else if point < 0x800 then [UInt8.ofNat (0xC0 + point >>> 6), tail 0]
  else if point < 0x10000 then [UInt8.ofNat (0xE0 + point >>> 12), tail 6, tail 0]
  else [UInt8.ofNat (0xF0 + point >>> 18), tail 12, tail 6, tail 0]

/-- A string as bytes. Any string will do; a surrogate that is no half of a pair stays alone. -/
def bytes : List Piece → Bytes
  | [] => []
  | escaped high :: escaped low :: rest =>
    if isHighSurrogate high && isLowSurrogate low then pointBytes (pairPoint high low) ++ bytes rest
    else pointBytes high ++ bytes (escaped low :: rest)
  | plain byte :: rest => byte :: bytes rest
  | escaped unit :: rest => pointBytes unit ++ bytes rest

/-- Whether a string is well formed even if nobody wants it. -/
def wellFormed (pieces : List Piece) : Bool := pieces.all fun piece => !piece.isRawControl

/-- A string as text: no raw control character, and its bytes are those of a text. No text has the
bytes of a surrogate. -/
def text? (pieces : List Piece) : Option String :=
  if wellFormed pieces then Text.Utf8.decode? (bytes pieces) else none

/-- The letters of a string without escapes, a letter for each byte. -/
def plainLetters? (pieces : List Piece) : Option (List Char) :=
  pieces.mapM fun
    | plain byte => some (Char.ofNat byte.toNat)
    | escaped _ => none

end Piece

/-! ## Parts that nobody wants -/

namespace Node

mutual

/-- Whether the strings of a node are well formed. -/
def wellFormed : Node → Bool
  | null => true
  | bool _ => true
  | number _ => true
  | string pieces => Piece.wellFormed pieces
  | array items => itemsWellFormed items
  | object members => membersWellFormed members

/-- Whether the strings of all items are well formed. -/
def itemsWellFormed : List Node → Bool
  | [] => true
  | item :: rest => wellFormed item && itemsWellFormed rest

/-- Whether the keys and the strings of all members are well formed. -/
def membersWellFormed : List (List Piece × Node) → Bool
  | [] => true
  | (key, node) :: rest =>
    Piece.wellFormed key && wellFormed node && membersWellFormed rest

end

end Node

end CommitLog.Json
