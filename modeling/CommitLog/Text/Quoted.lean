import CommitLog.Text.Hex
import CommitLog.Text.Unprintable

/-!
# Quoted text

A text between quotation marks for a message: marks and backslashes behind a backslash, the usual
short forms of tab, line feed, carriage return and the zero character, and every other unprintable
character by its number in braces. In a path the apostrophe stands behind a backslash as well.
-/

namespace CommitLog.Text

/-- A character inside quotation marks. -/
def quoteChar (c : Char) : List Char :=
  match c with
  | '"' => ['\\', '"']
  | '\\' => ['\\', '\\']
  | '\x00' => ['\\', '0']
  | '\t' => ['\\', 't']
  | '\r' => ['\\', 'r']
  | '\n' => ['\\', 'n']
  | c =>
    if isUnprintable c then ['\\', 'u', '\x7b'] ++ (Hex.ofNat c.toNat).toList ++ ['\x7d']
    else [c]

/-- A text between quotation marks. -/
def quoted (text : String) : String :=
  String.ofList ('"' :: (text.toList.flatMap quoteChar ++ ['"']))

/-- A character of a path inside quotation marks. -/
def quotePathChar (c : Char) : List Char := if c.toNat = 0x27 then ['\\', c] else quoteChar c

/-- The text of a path between quotation marks. -/
def quotedPath (text : String) : String :=
  String.ofList ('"' :: (text.toList.flatMap quotePathChar ++ ['"']))

end CommitLog.Text
