import CommitLog.Json.Node

/-!
# Reading a JSON text

One value with blanks around it. Blanks are the space, the tab and the two line ends. There is no
comma before a closing bracket, no leading zero, and a digit on both sides of a point.

A text is read byte by byte, and a byte is looked at as the letter of its number. All that the form
of a text depends on is ASCII, so letters beyond it stand inside strings only; whether they are the
UTF-8 of a text is asked where a string is wanted as text.
-/

namespace CommitLog.Json

/-- Whether a character may stand between the parts of a text. -/
def isBlank (c : Char) : Bool :=
  c.toNat == 0x20 || c.toNat == 0x09 || c.toNat == 0x0A || c.toNat == 0x0D

/-- Drops blanks from the front. -/
def skipBlanks (cs : List Char) : List Char := cs.dropWhile isBlank

/-! ## Strings -/

/-- The code unit of an escape of one letter. -/
def shortEscape? (c : Char) : Option Nat :=
  if c = '"' ∨ c = '\\' ∨ c = '/' then some c.toNat
  else if c = 'b' then some 0x08
  else if c = 'f' then some 0x0C
  else if c = 'n' then some 0x0A
  else if c = 'r' then some 0x0D
  else if c = 't' then some 0x09
  else none

/-- The code unit of four hexadecimal digits. -/
def codeUnit? (a b c d : Char) : Option Nat := do
  let a ← Text.Hex.value? a
  let b ← Text.Hex.value? b
  let c ← Text.Hex.value? c
  let d ← Text.Hex.value? d
  return ((a * 16 + b) * 16 + c) * 16 + d

/-- A string behind its opening quotation mark. -/
def readString : List Char → Option (List Piece × List Char)
  | [] => none
  | '"' :: rest => some ([], rest)
  | '\\' :: 'u' :: a :: b :: c :: d :: rest => do
    let unit ← codeUnit? a b c d
    let (later, rest) ← readString rest
    return (.escaped unit :: later, rest)
  | '\\' :: letter :: rest => do
    let unit ← shortEscape? letter
    let (later, rest) ← readString rest
    return (.escaped unit :: later, rest)
  | c :: rest => do
    if c = '\\' then none
    else
      let (later, rest) ← readString rest
      return (.plain (UInt8.ofNat c.toNat) :: later, rest)

/-! ## Numbers -/

/-- At least one digit. -/
def readDigits1 (cs : List Char) : Option (List Nat × List Char) :=
  match Decimal.readDigits cs with
  | ([], _) => none
  | found => some found

/-- The digits behind a point, if there is one. -/
def readFraction : List Char → Option (Option (List Nat) × List Char)
  | '.' :: rest => (readDigits1 rest).map fun (digits, rest) => (some digits, rest)
  | cs => some (none, cs)

/-- An exponent, if there is one. -/
def readExponent : List Char → Option (Option Int × List Char)
  | c :: rest =>
    if c = 'e' ∨ c = 'E' then
      let (negative, rest) : Bool × List Char :=
        match rest with
        | '-' :: rest => (true, rest)
        | '+' :: rest => (false, rest)
        | rest => (false, rest)
      (readDigits1 rest).map fun (digits, rest) =>
        let n := Int.ofNat (Decimal.ofDigits digits)
        (some (if negative then -n else n), rest)
    else some (none, c :: rest)
  | [] => some (none, [])

/-- The digits in front of a point: zero alone, or a row that does not begin with it. -/
def readWhole (cs : List Char) : Option (List Nat × List Char) :=
  match readDigits1 cs with
  | some (0 :: _ :: _, _) => none
  | found => found

/-- A number. -/
def readNumber (cs : List Char) : Option (NumberLiteral × List Char) := do
  let (negative, rest) : Bool × List Char :=
    match cs with
    | '-' :: rest => (true, rest)
    | cs => (false, cs)
  let (whole, rest) ← readWhole rest
  let (fraction, rest) ← readFraction rest
  let (exponent, rest) ← readExponent rest
  return ({ negative, whole, fraction, exponent }, rest)

/-! ## Values -/

namespace Node

mutual

/-- A value. Every step down takes one unit of fuel. -/
def readValue : Nat → List Char → Option (Node × List Char)
  | 0, _ => none
  | fuel + 1, cs =>
    match skipBlanks cs with
    | 'n' :: 'u' :: 'l' :: 'l' :: rest => some (null, rest)
    | 't' :: 'r' :: 'u' :: 'e' :: rest => some (bool true, rest)
    | 'f' :: 'a' :: 'l' :: 's' :: 'e' :: rest => some (bool false, rest)
    | '"' :: rest => (readString rest).map fun (pieces, rest) => (string pieces, rest)
    | '[' :: rest =>
      match skipBlanks rest with
      | ']' :: rest => some (array [], rest)
      | rest => (readItems fuel rest).map fun (items, rest) => (array items, rest)
    | '{' :: rest =>
      match skipBlanks rest with
      | '}' :: rest => some (object [], rest)
      | rest => (readMembers fuel rest).map fun (members, rest) => (object members, rest)
    | rest => (readNumber rest).map fun (literal, rest) => (number literal, rest)

/-- One or more items up to the closing bracket. -/
def readItems : Nat → List Char → Option (List Node × List Char)
  | 0, _ => none
  | fuel + 1, cs => do
    let (item, rest) ← readValue fuel cs
    match skipBlanks rest with
    | ',' :: rest =>
      let (later, rest) ← readItems fuel rest
      return (item :: later, rest)
    | ']' :: rest => return ([item], rest)
    | _ => none

/-- One or more members up to the closing brace. -/
def readMembers : Nat → List Char → Option (List (List Piece × Node) × List Char)
  | 0, _ => none
  | fuel + 1, cs => do
    let '"' :: rest := skipBlanks cs | none
    let (key, rest) ← readString rest
    let ':' :: rest := skipBlanks rest | none
    let (value, rest) ← readValue fuel rest
    match skipBlanks rest with
    | ',' :: rest =>
      let (later, rest) ← readMembers fuel rest
      return ((key, value) :: later, rest)
    | '}' :: rest => return ([(key, value)], rest)
    | _ => none

end

/-- The letters of a text, a letter for each byte. -/
def letters (data : Bytes) : List Char := data.map fun byte => Char.ofNat byte.toNat

/-- The tree of a JSON text. Every two steps down consume a letter at least, which bounds the
fuel. -/
def parse? (data : Bytes) : Option Node := do
  let (node, rest) ← readValue (2 * data.length + 2) (letters data)
  if (skipBlanks rest).isEmpty then some node else none

/-- The tree of a JSON text that is known to be text. -/
def ofText? (text : String) : Option Node := parse? (Text.Utf8.encode text)

end Node

end CommitLog.Json
