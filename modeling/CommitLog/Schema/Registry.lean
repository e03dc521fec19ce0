import CommitLog.Schema.Header

/-!
# Registry of schemas

The registry knows versions of schemas by name and fingerprint. Of each name one version is the
latest, and a new version has to be able to read what the latest one wrote. A version that is
known already may be registered again at any time, which changes nothing.
-/

namespace CommitLog.Schema

/-- The known versions, and the latest version of each name. -/
structure Registry where
  versions : List Schema := []
  latestByName : List (String × Schema) := []
deriving Repr, Inhabited

namespace Registry

/-- No version is known. -/
def empty : Registry := {}

/-- How many versions are known. -/
def size (registry : Registry) : Nat := registry.versions.length

/-- Whether no version is known. -/
def isEmpty (registry : Registry) : Bool := registry.versions.isEmpty

/-- The version of a name with a fingerprint. -/
def resolve? (registry : Registry) (name : String) (fingerprint : Fingerprint) : Option Schema :=
  registry.versions.find? fun schema =>
    schema.name == name && schema.fingerprint == fingerprint

/-- The latest version of a name. -/
def latest? (registry : Registry) (name : String) : Option Schema :=
  registry.latestByName.lookup name

/-- Puts the latest version of a name over the one before it. -/
def putLatest (name : String) (schema : Schema) :
    List (String × Schema) → List (String × Schema)
  | [] => [(name, schema)]
  | (n, s) :: rest =>
    if n = name then (name, schema) :: rest else (n, s) :: putLatest name schema rest

/-- The registry with one more version, which is the latest of its name. -/
def add (registry : Registry) (schema : Schema) : Registry :=
  { versions := registry.versions ++ [schema]
    latestByName := putLatest schema.name schema registry.latestByName }

/-- Makes a version known, unless it cannot read what the latest one wrote. -/
def register (registry : Registry) (schema : Schema) :
    Except Error Fingerprint × Registry :=
  let fingerprint := schema.fingerprint
  if (registry.resolve? schema.name fingerprint).isSome then (.ok fingerprint, registry)
  else
    match registry.latest? schema.name with
    | none => (.ok fingerprint, registry.add schema)
    | some latest =>
      match schema.evolution latest with
      | .incompatible reasons => (.error (.incompatible schema.name reasons), registry)
      | _ => (.ok fingerprint, registry.add schema)

/-- The registry and its count of versions. -/
def display (registry : Registry) : String :=
  "MemorySchemaRegistry \x7b versions: " ++ toString registry.size ++ " \x7d"

/-! ## Reference headers -/

/-- The media type of payloads with a reference header. -/
def contentType : String := "application/x-eventlog-schema-ref"

/-- What the codec over the registry is called. -/
def codecDisplay (registry : Registry) : String :=
  "RegistrySchemaCodec \x7b registry: " ++ registry.display ++ " \x7d"

/-- Makes a version known and writes its reference under a name. -/
def encode (registry : Registry) (revision : Revision) (name : String) (schema : Schema) :
    Except Error Bytes × Registry :=
  match registry.register schema with
  | (.error e, registry) => (.error e, registry)
  | (.ok fingerprint, registry) =>
    ((encodeName revision name).map fun front => front ++ Bytes.ofUInt64 fingerprint.value,
      registry)

/-- Reads a reference that is to be under a name and looks it up. -/
def decode (registry : Registry) (revision : Revision) (name : String) : Reader Error Schema := do
  let name ← readName revision name
  let fingerprint ← readFingerprint revision
  match registry.resolve? name fingerprint with
  | some schema => return schema
  | none => throw (.unknown name fingerprint revision)

end Registry

end CommitLog.Schema
