import CommitLog.Reader
import CommitLog.Schema.Error

/-!
# Schemas in front of payloads

The inline header carries the whole definition, so a payload can be read with nothing else at
hand:

```text
[4: length][name][8: fingerprint][4: length][definition as JSON]
```

The reference header carries only the name and the fingerprint, and is read with a registry.
-/

namespace CommitLog.Schema

/-- Lengths that 32 bits cannot hold start here. -/
def lengthBound : Nat := UInt32.size

/-! ## The common front -/

/-- A name behind its length. -/
def encodeName (revision : Revision) (name : String) : Except Error Bytes :=
  let bytes := Text.Utf8.encode name
  if bytes.length < lengthBound then .ok (Bytes.ofUInt32 (UInt32.ofNat bytes.length) ++ bytes)
  else .error (.malformed revision (.stringTooLong bytes.length))

/-- Reads a part behind its length. -/
def readPart (revision : Revision) (part : HeaderPart) : Reader Error Bytes := do
  let length ← Reader.uint32 fun _ => .malformed revision (.missingLength part)
  Reader.take length.toNat fun remaining =>
    .malformed revision (.short part length.toNat remaining)

/-- Reads a name and compares it with the one that is asked for. -/
def readName (revision : Revision) (expected : String) : Reader Error String := do
  let bytes ← readPart revision .name
  match Text.Utf8.decode? bytes with
  | none => throw (.malformed revision .nameNotText)
  | some found =>
    if found = expected then return found else throw (.nameMismatch expected found revision)

/-- Reads a fingerprint. -/
def readFingerprint (revision : Revision) : Reader Error Fingerprint := do
  let value ← Reader.uint64 fun _ => .malformed revision .missingFingerprint
  return ⟨value⟩

/-! ## Inline -/

namespace Inline

/-- The media type of payloads with an inline header. -/
def contentType : String := "application/x-eventlog-schema+json"

/-- What the codec is called. -/
def display : String := "InlineSchemaCodec"

/-- The header of a schema under a name. -/
def encode (revision : Revision) (name : String) (schema : Schema) : Except Error Bytes := do
  let definition := schema.canonicalForm
  if lengthBound ≤ definition.length then throw (.invalid name .definitionTooLarge)
  let front ← encodeName revision name
  return front ++ Bytes.ofUInt64 schema.fingerprint.value
    ++ Bytes.ofUInt32 (UInt32.ofNat definition.length) ++ definition

/-- Reads a header that is to be under a name. The definition has to have the fingerprint that
stands beside it. -/
def decode (revision : Revision) (name : String) : Reader Error Schema := do
  let name ← readName revision name
  let stored ← readFingerprint revision
  let definition ← readPart revision .definition
  match parse? definition with
  | none => throw (.malformed revision .unreadableDefinition)
  | some schema =>
    if schema.fingerprint = stored then return schema
    else throw (.fingerprintMismatch name stored schema.fingerprint revision)

end Inline

end CommitLog.Schema
