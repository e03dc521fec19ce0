import CommitLog.Json.Node.Parse

/-!
# What a JSON text means

A tree becomes a value of some type, or it does not fit. A record is an object with its members in
any order, each known member once, others passed over; or an array of the members in the order of
their declaration, of which the last ones may be left out where they may be missing.

A free value may open so many arrays and objects inside each other and no more. Its numbers have
to be in range and its strings have to be text; of a repeated key the last value counts.
-/

namespace CommitLog.Json

/-- How many arrays and objects a text may open inside each other. -/
def maxDepth : Nat := 127

namespace Node

/-! ## Free values -/

mutual

/-- The value of a node that may open `depth` levels. -/
def value? : Nat → Node → Option Value
  | _, null => some .null
  | _, bool b => some (.bool b)
  | _, number literal => literal.value?.map .number
  | _, string pieces => (Piece.text? pieces).map .string
  | 0, array _ => none
  | depth + 1, array items => (itemValues? depth items).map .array
  | 0, object _ => none
  | depth + 1, object members =>
    (memberValues? depth members).map fun members =>
      .object (members.foldl (fun kept (key, value) => putMember key value kept) [])

/-- The values of items. -/
def itemValues? : Nat → List Node → Option (List Value)
  | _, [] => some []
  | depth, item :: rest => do
    let value ← value? depth item
    let later ← itemValues? depth rest
    return value :: later

/-- The values of members beside their keys. -/
def memberValues? : Nat → List (List Piece × Node) → Option (List (String × Value))
  | _, [] => some []
  | depth, (key, node) :: rest => do
    let key ← Piece.text? key
    let value ← value? depth node
    let later ← memberValues? depth rest
    return (key, value) :: later

end

/-! ## Scalars -/

/-- An integer below `bound`, written as one. -/
def natBelow? (bound : Nat) : Node → Option Nat
  | number literal =>
    match literal.value? with
    | some (.integer n) => if 0 ≤ n ∧ n.toNat < bound then some n.toNat else none
    | _ => none
  | _ => none

/-- An unsigned 32-bit integer. -/
def uint32? (node : Node) : Option UInt32 := (node.natBelow? UInt32.size).map UInt32.ofNat

/-- An unsigned 64-bit integer. -/
def uint64? (node : Node) : Option UInt64 := (node.natBelow? UInt64.size).map UInt64.ofNat

/-- A size or a count: an unsigned 64-bit integer. -/
def size? (node : Node) : Option Nat := node.natBelow? UInt64.size

/-- A truth value. -/
def bool? : Node → Option Bool
  | bool b => some b
  | _ => none

/-- A text. -/
def text? : Node → Option String
  | string pieces => Piece.text? pieces
  | _ => none

/-! ## Rows, maps and records -/

/-- A row of values of one type. -/
def list? {α : Type} (item? : Node → Option α) : Node → Option (List α)
  | array items => items.mapM item?
  | _ => none

/-- Bytes: a row of integers below 256, or the bytes of a string. -/
def bytes? : Node → Option Bytes
  | string pieces => some (Piece.bytes pieces)
  | array items => items.mapM fun item => (item.natBelow? 256).map UInt8.ofNat
  | _ => none

/-- An integer that is the key of a member: a number in quotation marks, with no escape. -/
def numericKey? (bound : Nat) (key : List Piece) : Option Nat := do
  let cs ← Piece.plainLetters? key
  let (literal, rest) ← readNumber cs
  if rest.isEmpty then natBelow? bound (number literal) else none

/-- The members of an object by integer keys, in the order of the text. -/
def numericMembers? {α : Type} (bound : Nat) (value? : Node → Option α) :
    Node → Option (List (Nat × α))
  | object members => members.mapM fun (key, node) => do
    let key ← numericKey? bound key
    let value ← value? node
    return (key, value)
  | _ => none

/-- Puts a node into the place of the first equal name, if that place is empty. None if it is
taken; the second part says whether there is such a name. -/
def fillSlot (name : String) (node : Node) :
    List (String × Option Node) → Option (List (String × Option Node) × Bool)
  | [] => some ([], false)
  | (n, held) :: rest =>
    if n = name then
      match held with
      | some _ => none
      | none => some ((n, some node) :: rest, true)
    else (fillSlot name node rest).map fun (rest, known) => ((n, held) :: rest, known)

/-- Puts members into the places of their names. Others only have to be well formed. -/
def fillSlots : List (List Piece × Node) → List (String × Option Node) →
    Option (List (String × Option Node))
  | [], slots => some slots
  | (key, node) :: rest, slots => do
    let name ← Piece.text? key
    let (slots, known) ← fillSlot name node slots
    if known || node.wellFormed then fillSlots rest slots else none

/-- The members of a record in the order of `names`, none for one that is missing. -/
def record? (names : List String) : Node → Option (List (Option Node))
  | object members =>
    (fillSlots members (names.map fun name => (name, none))).map fun slots => slots.map Prod.snd
  | array items =>
    if items.length ≤ names.length
    then some (items.map some ++ List.replicate (names.length - items.length) none)
    else none
  | _ => none

/-- One of several named cases: its name alone, which leaves no content, or an object of just the
name and the content. -/
def variant? : Node → Option (String × Option Node)
  | string pieces => (Piece.text? pieces).map fun name => (name, none)
  | object [(key, node)] => (Piece.text? key).map fun name => (name, some node)
  | _ => none

/-- A member that may be missing. -/
def orDefault {α : Type} (default : α) (read? : Node → Option α) : Option Node → Option α
  | none => some default
  | some node => read? node

end Node

end CommitLog.Json
