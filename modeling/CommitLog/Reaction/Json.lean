import CommitLog.Reaction
import CommitLog.Json.Node.Access

/-!
# Reactions as JSON

An object with one member, which names the case.
-/

namespace CommitLog.Reaction

open Json

variable {ε : Type}

/-- The name of the case of an accepted command. -/
def acceptedName : String := "Accepted"

/-- The name of the case of a rejected command. -/
def rejectedName : String := "Rejected"

/-- The text of a reaction, given the text of an event. -/
def toJsonText (eventText : ε → List Char) : Reaction ε → List Char
  | accepted events => objectText [(acceptedName, arrayText (events.map eventText))]
  | rejected reason => objectText [(rejectedName, stringText reason)]

/-- A reaction from its JSON form, given that of an event. -/
def ofNode? (event? : Node → Option ε) (node : Node) : Option (Reaction ε) := do
  let (name, some content) ← node.variant? | none
  if name = acceptedName then (content.list? event?).map accepted
  else if name = rejectedName then content.text?.map rejected
  else none

end CommitLog.Reaction
