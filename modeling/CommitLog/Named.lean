/-!
# Things by name

What a program holds under names of its own choice.
-/

namespace CommitLog

/-- Things by name; a later one takes the place of an earlier one. -/
abbrev Named (α : Type) := List (String × α)

namespace Named

variable {α : Type}

/-- Gives a name to a thing. -/
def put (things : Named α) (name : String) (thing : α) : Named α :=
  (name, thing) :: things.filter fun (other, _) => other != name

/-- Takes a name away. -/
def drop (things : Named α) (name : String) : Named α :=
  things.filter fun (other, _) => other != name

/-- Changes all things. -/
def mapAll {β : Type} (things : Named α) (change : α → β) : Named β :=
  things.map fun (name, thing) => (name, change thing)

end Named

end CommitLog
