import CommitLog.Schema

/-!
# Evolution of schemas

Whether a reader with one version of a schema can read what a writer with another version wrote.
Every field of the reader has to be readable from the writer's field of the same name, or have a
default if the writer has none. Two versions of one fingerprint are the same.
-/

namespace CommitLog.Schema

/-- A rule that a reader's version breaks. -/
inductive Reason where
  | nameDiffers (reader writer : String)
  | unreadableField (name : String) (written read : FieldType)
  | missingField (name : String)
  /-- A rule that someone else put into words. -/
  | described (text : String)
deriving DecidableEq, Repr, Inhabited

/-- What is said about a broken rule. -/
def Reason.message : Reason → String
  | .nameDiffers reader writer => "record name " ++ reader ++ " differs from writer " ++ writer
  | .unreadableField name written read =>
    "field " ++ name ++ ": cannot read " ++ written.name ++ " as " ++ read.name
  | .missingField name => "field " ++ name ++ " is missing from the writer and has no default"
  | .described text => text

/-- How a reader's version stands to a writer's. -/
inductive Evolution where
  | identical
  | compatible
  | incompatible (reasons : List Reason)
deriving DecidableEq, Repr, Inhabited

/-- Whether the reader can read what the writer wrote. -/
def Evolution.isCompatible : Evolution → Bool
  | identical => true
  | compatible => true
  | incompatible _ => false

/-- The rule that a field of the reader breaks, if it breaks one. -/
def fieldReason? (writer : Schema) (field : Field) : Option Reason :=
  match writer.field? field.name with
  | some written =>
    if field.type.reads written.type then none
    else some (.unreadableField field.name written.type field.type)
  | none => if field.default.isSome then none else some (.missingField field.name)

/-- The rules that a reader's version breaks: that of the name, then those of the fields in
order. -/
def brokenRules (reader writer : Schema) : List Reason :=
  let naming :=
    if reader.name = writer.name then [] else [.nameDiffers reader.name writer.name]
  naming ++ reader.fields.filterMap (fieldReason? writer)

/-- How a reader's version stands to a writer's by the rules alone. -/
def check (reader writer : Schema) : Evolution :=
  match reader.brokenRules writer with
  | [] => .compatible
  | reasons => .incompatible reasons

/-- How a reader's version stands to a writer's. -/
def evolution (reader writer : Schema) : Evolution :=
  if reader.fingerprint = writer.fingerprint then .identical else reader.check writer

/-- Whether a reader's version can read what a writer's version wrote. -/
def compatibleWith (reader writer : Schema) : Bool := (reader.evolution writer).isCompatible

end CommitLog.Schema
