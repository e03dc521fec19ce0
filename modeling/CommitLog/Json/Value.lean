import CommitLog.Json.Number
import CommitLog.Text.Hex

/-!
# JSON values and their text

The members of an object are kept in the order of their keys, each key once, so a value has one
text. The text is compact. In a string the quotation mark, the backslash and the control
characters below the space are escaped; everything else stands as it is.
-/

namespace CommitLog.Json

/-- A JSON value. -/
inductive Value where
  | null
  | bool (b : Bool)
  | number (n : Number)
  | string (s : String)
  | array (items : List Value)
  | object (members : List (String × Value))
deriving Repr, Inhabited

/-! ## Members in order -/

/-- Puts a member in the place of its key, over a member of the same key. -/
def putMember (key : String) (value : Value) :
    List (String × Value) → List (String × Value)
  | [] => [(key, value)]
  | (k, v) :: rest =>
    if key < k then (key, value) :: (k, v) :: rest
    else if key = k then (key, value) :: rest
    else (k, v) :: putMember key value rest

/-! ## Text -/

/-- A character inside a string. -/
def escapeChar (c : Char) : List Char :=
  if c = '"' then ['\\', '"']
  else if c = '\\' then ['\\', '\\']
  else if c.toNat = 0x08 then ['\\', 'b']
  else if c.toNat = 0x09 then ['\\', 't']
  else if c.toNat = 0x0A then ['\\', 'n']
  else if c.toNat = 0x0C then ['\\', 'f']
  else if c.toNat = 0x0D then ['\\', 'r']
  else if c.toNat < 0x20 then '\\' :: 'u' :: Text.Hex.digits 4 c.toNat []
  else [c]

/-- A string between quotation marks. -/
def stringText (s : String) : List Char :=
  '"' :: (s.toList.flatMap escapeChar ++ ['"'])

/-- Texts with commas between them. -/
def joinText : List (List Char) → List Char
  | [] => []
  | [t] => t
  | t :: rest => t ++ ',' :: joinText rest

/-- Texts of items between square brackets. -/
def arrayText (items : List (List Char)) : List Char := '[' :: (joinText items ++ [']'])

/-- Texts of members between braces, each behind its key. -/
def objectText (members : List (String × List Char)) : List Char :=
  '{' :: (joinText (members.map fun (key, text) => stringText key ++ ':' :: text) ++ ['}'])

namespace Value

mutual

/-- The text of a value. -/
def text : Value → List Char
  | null => ['n', 'u', 'l', 'l']
  | bool true => ['t', 'r', 'u', 'e']
  | bool false => ['f', 'a', 'l', 's', 'e']
  | number n => n.text
  | string s => stringText s
  | array items => arrayText (itemTexts items)
  | object members => objectText (memberTexts members)

/-- The texts of items. -/
def itemTexts : List Value → List (List Char)
  | [] => []
  | item :: rest => text item :: itemTexts rest

/-- The texts of members beside their keys. -/
def memberTexts : List (String × Value) → List (String × List Char)
  | [] => []
  | (key, value) :: rest => (key, text value) :: memberTexts rest

end

mutual

/-- Whether two values are the same. -/
def same : Value → Value → Bool
  | null, null => true
  | bool a, bool b => a == b
  | number a, number b => a == b
  | string a, string b => a == b
  | array a, array b => sameItems a b
  | object a, object b => sameMembers a b
  | _, _ => false

/-- Whether two rows of items are the same. -/
def sameItems : List Value → List Value → Bool
  | [], [] => true
  | a :: as, b :: bs => same a b && sameItems as bs
  | _, _ => false

/-- Whether two rows of members are the same. -/
def sameMembers : List (String × Value) → List (String × Value) → Bool
  | [], [] => true
  | (ka, a) :: as, (kb, b) :: bs => ka == kb && same a b && sameMembers as bs
  | _, _ => false

end

instance : BEq Value := ⟨same⟩

end Value

end CommitLog.Json
