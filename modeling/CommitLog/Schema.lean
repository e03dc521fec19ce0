import CommitLog.Schema.FieldType
import CommitLog.Schema.Fingerprint
import CommitLog.Text.Utf8

/-!
# Schemas

A schema is a named record of typed fields, some of which have defaults. Its canonical form is its
compact JSON text; the fingerprint is taken of that.
-/

namespace CommitLog

/-- A field of a record. -/
structure Field where
  name : String
  type : FieldType
  /-- The value of the field where a writer did not have it. -/
  default : Option Json.Value := none
deriving Repr, Inhabited, BEq

/-- A named record of typed fields. -/
structure Schema where
  name : String
  fields : List Field := []
deriving Repr, Inhabited, BEq

/-- The text of a field. The default stands there only if there is one. -/
def Field.toJsonText (field : Field) : List Char :=
  let named := [("name", Json.stringText field.name), ("type", field.type.toJsonText)]
  match field.default with
  | none => Json.objectText named
  | some value => Json.objectText (named ++ [("default", value.text)])

/-- A field from its JSON form, which may open `depth` levels. A null is no default. -/
def Field.ofNode? (depth : Nat) (node : Json.Node) : Option Field := do
  let [some name, some type, default] ← node.record? ["name", "type", "default"] | none
  let name ← name.text?
  let type ← FieldType.ofNode? type
  match default with
  | none => return { name, type }
  | some .null => return { name, type }
  | some value =>
    let value ← value.value? (depth - 1)
    return { name, type, default := some value }

namespace Schema

/-- The schema with one more field behind the others. -/
def withField (schema : Schema) (field : Field) : Schema :=
  { schema with fields := schema.fields ++ [field] }

/-- The first field of a name. -/
def field? (schema : Schema) (name : String) : Option Field :=
  schema.fields.find? fun field => field.name == name

/-- The text of a schema. -/
def toJsonText (schema : Schema) : List Char :=
  Json.objectText
    [("name", Json.stringText schema.name),
      ("fields", Json.arrayText (schema.fields.map Field.toJsonText))]

/-- A schema from its JSON form, which may open `depth` levels. -/
def ofNode? (depth : Nat) (node : Json.Node) : Option Schema := do
  let [some name, some fields] ← node.record? ["name", "fields"] | none
  return { name := ← name.text?, fields := ← fields.list? (Field.ofNode? (depth - 2)) }

/-- A schema from the bytes of a JSON text. -/
def parse? (data : Bytes) : Option Schema := (Json.Node.parse? data).bind (ofNode? Json.maxDepth)

/-- A schema from a JSON text. -/
def ofText? (text : String) : Option Schema := parse? (Text.Utf8.encode text)

/-- The bytes that the fingerprint is taken of. -/
def canonicalForm (schema : Schema) : Bytes :=
  Text.Utf8.encode (String.ofList schema.toJsonText)

/-- The compact identity of the schema. -/
def fingerprint (schema : Schema) : Fingerprint := .ofBytes schema.canonicalForm

/-- What is wrong with a schema. -/
inductive Flaw where
  | duplicateField (name : String)
  | defaultMismatch (name : String) (type : FieldType)
  | definitionTooLarge
  /-- A flaw that someone else put into words. -/
  | described (text : String)
deriving DecidableEq, Repr, Inhabited

/-- What is said about a flaw. -/
def Flaw.message : Flaw → String
  | .duplicateField name => "duplicate field " ++ name
  | .defaultMismatch name type => "default of " ++ name ++ " is not a " ++ type.name
  | .definitionTooLarge => "definition is too large"
  | .described text => text

/-- The first flaw of a row of fields, given the names of the fields before them. -/
def flawAmong? (seen : List String) : List Field → Option Flaw
  | [] => none
  | field :: rest =>
    if seen.contains field.name then some (.duplicateField field.name)
    else
      match field.default with
      | some value =>
        if field.type.accepts value then flawAmong? (field.name :: seen) rest
        else some (.defaultMismatch field.name field.type)
      | none => flawAmong? (field.name :: seen) rest

/-- The first flaw of the schema: a name used twice, or a default of another type. -/
def flaw? (schema : Schema) : Option Flaw := flawAmong? [] schema.fields

end Schema

end CommitLog
