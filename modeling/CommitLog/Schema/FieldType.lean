import CommitLog.Json.Node.Access

/-!
# Types of fields

What a field of a record holds, which types read what was written as another, and which JSON
values may be the default of a field.
-/

namespace CommitLog

/-- What a field holds. -/
inductive FieldType where
  | bool
  | int
  | long
  | float
  | double
  | string
  | bytes
deriving DecidableEq, Repr, Inhabited

namespace FieldType

/-- All types, in the order of their declaration. -/
def all : List FieldType := [bool, int, long, float, double, string, bytes]

/-- The name of a type. -/
def name : FieldType → String
  | bool => "bool"
  | int => "int"
  | long => "long"
  | float => "float"
  | double => "double"
  | string => "string"
  | bytes => "bytes"

/-- The type of a name. -/
def ofName? (name : String) : Option FieldType := all.find? fun t => t.name == name

theorem ofName?_name (t : FieldType) : ofName? t.name = some t := by
  cases t <;> decide

/-- Whether a reader of one type reads what a writer of another wrote: the same type, or a wider
number. -/
def reads (reader writer : FieldType) : Bool :=
  reader == writer ||
    match writer, reader with
    | int, long | int, double | long, double | float, double => true
    | _, _ => false

/-- Whether a signed integer fits a width of bits. -/
def fitsSigned (bits : Nat) (n : Int) : Bool :=
  let half := Int.ofNat (1 <<< (bits - 1))
  n < half && -half ≤ n

/-- Whether a JSON value may be the default of a field of the type. -/
def accepts : FieldType → Json.Value → Bool
  | bool, .bool _ => true
  | int, .number (.integer n) => fitsSigned 32 n
  | long, .number (.integer n) => fitsSigned 64 n
  | float, .number _ => true
  | double, .number _ => true
  | string, .string _ => true
  | bytes, .string _ => true
  | _, _ => false

/-- The text of a type: its name in quotation marks. -/
def toJsonText (t : FieldType) : List Char := Json.stringText t.name

/-- A type from its JSON form: its name, or an object of its name and nothing. -/
def ofNode? (node : Json.Node) : Option FieldType :=
  match node.variant? with
  | some (name, none) => ofName? name
  | some (name, some .null) => ofName? name
  | _ => none

end FieldType

end CommitLog
