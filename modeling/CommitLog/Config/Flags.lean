import CommitLog.Text.Blank
import CommitLog.Text.Hex

/-!
# Open flags

How partition files are opened, as a set of bits. Three bits have names; the others are kept but
mean nothing. The text of a set is its names in the order of their bits and then the other bits as
one hexadecimal number, with bars between them. Reading takes names and numbers in any order.
-/

namespace CommitLog

/-- A set of bits that says how partition files are opened. -/
structure OpenFlags where
  bits : UInt8
deriving DecidableEq, Repr, Inhabited

namespace OpenFlags

/-- Missing topic directories and partition files are created. -/
def create : OpenFlags := ⟨1⟩

/-- Appends are allowed. -/
def append : OpenFlags := ⟨2⟩

/-- Every frame reaches stable storage before it is acknowledged. -/
def durable : OpenFlags := ⟨4⟩

/-- No bit. -/
def none : OpenFlags := ⟨0⟩

/-- The bits of both sets. -/
def union (a b : OpenFlags) : OpenFlags := ⟨a.bits ||| b.bits⟩

/-- Whether every bit of `b` is in `a`. -/
def contains (a b : OpenFlags) : Bool := a.bits &&& b.bits == b.bits

/-- The bits of `a` that are not in `b`. -/
def without (a b : OpenFlags) : OpenFlags := ⟨a.bits &&& ~~~b.bits⟩

/-- The flags that have names, in the order of their bits. -/
def named : List (String × OpenFlags) :=
  [("CREATE", create), ("APPEND", append), ("DURABLE", durable)]

/-- All named flags. -/
def all : OpenFlags := named.foldl (fun flags (_, flag) => flags.union flag) none

/-- The bar between two parts of a text, with its blanks. -/
def separator : String := " | "

/-- The text of a set. -/
def text (flags : OpenFlags) : String :=
  let names := named.filterMap fun (name, flag) => if flags.contains flag then some name else .none
  let rest := flags.without all
  let others := if rest.bits = 0 then [] else ["0x" ++ Text.Hex.ofNat rest.bits.toNat]
  separator.intercalate (names ++ others)

/-- The number of a row of hexadecimal digits, a plus sign in front allowed, if eight bits hold
it. -/
def readBits? (cs : List Char) : Option UInt8 := do
  let digits := match cs with
    | '+' :: rest => rest
    | cs => cs
  if digits.isEmpty then .none
  else
    let values ← digits.mapM Text.Hex.value?
    let n := values.foldl (fun n d => 16 * n + d) 0
    if n < 256 then some (UInt8.ofNat n) else .none

/-- A name, or a number behind `0x`. -/
def readPart? (cs : List Char) : Option OpenFlags :=
  match cs with
  | '0' :: 'x' :: digits => (readBits? digits).map OpenFlags.mk
  | cs => named.lookup (String.ofList cs)

/-- The parts of a text between bars. -/
def splitParts (cs : List Char) : List (List Char) :=
  match cs with
  | [] => [[]]
  | c :: rest =>
    match splitParts rest with
    | [] => [[c]]
    | part :: parts => if c = '|' then [] :: part :: parts else (c :: part) :: parts

/-- The set that a text names. A blank text names the empty set; otherwise no part may be
blank. -/
def ofText? (text : String) : Option OpenFlags :=
  let cs := text.toList
  if (Text.trim cs).isEmpty then some none
  else do
    let parts ← (splitParts cs).mapM fun part => readPart? (Text.trim part)
    return parts.foldl union none

end OpenFlags

end CommitLog
