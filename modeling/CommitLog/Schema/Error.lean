import CommitLog.Revision
import CommitLog.Schema.Evolution

/-!
# Errors about schemas

Why a schema cannot be written in front of a payload, found there again, or registered.
-/

namespace CommitLog.Schema

/-- A part of a schema header that stands behind its length. -/
inductive HeaderPart where
  | name
  | definition
deriving DecidableEq, Repr, Inhabited

/-- What a part is called. -/
def HeaderPart.title : HeaderPart → String
  | .name => "schema name"
  | .definition => "schema definition"

/-- What is wrong with the bytes of a header. -/
inductive Damage where
  | missingLength (part : HeaderPart)
  | short (part : HeaderPart) (needed remaining : Nat)
  | nameNotText
  | missingFingerprint
  /-- The definition is no JSON of the right shape. -/
  | unreadableDefinition
  | stringTooLong (length : Nat)
  /-- Damage that someone else put into words. -/
  | described (text : String)
deriving DecidableEq, Repr, Inhabited

/-- What is said about damage. -/
def Damage.message : Damage → String
  | .missingLength part => "missing " ++ part.title ++ " length"
  | .short part needed remaining =>
    part.title ++ " needs " ++ toString needed ++ " bytes, " ++ toString remaining ++ " remaining"
  | .nameNotText => "schema name is not UTF-8"
  | .missingFingerprint => "missing fingerprint"
  | .unreadableDefinition => "<json>"
  | .stringTooLong length => "string of " ++ toString length ++ " bytes is too long"
  | .described text => text

/-- Why a schema is refused. -/
inductive Error where
  /-- The payload names another schema. -/
  | nameMismatch (expected found : String) (revision : Revision)
  /-- The definition has another fingerprint than the one that stands beside it. -/
  | fingerprintMismatch (name : String) (stored computed : Fingerprint) (revision : Revision)
  /-- The registry does not know the version. -/
  | unknown (name : String) (fingerprint : Fingerprint) (revision : Revision)
  /-- The new version cannot read what the latest one wrote. -/
  | incompatible (name : String) (reasons : List Reason)
  /-- The header cannot be read. -/
  | malformed (revision : Revision) (damage : Damage)
  /-- The schema itself is no good. -/
  | invalid (name : String) (flaw : Flaw)
deriving DecidableEq, Repr, Inhabited

/-- What is said about a refusal. -/
def Error.message : Error → String
  | .nameMismatch expected found revision =>
    "expected schema " ++ expected ++ " at " ++ revision.display ++ ", found " ++ found
  | .fingerprintMismatch name stored computed revision =>
    "schema " ++ name ++ " at " ++ revision.display ++ ": fingerprint " ++ stored.display
      ++ " does not match definition (" ++ computed.display ++ ")"
  | .unknown name fingerprint revision =>
    "unknown schema " ++ name ++ " (" ++ fingerprint.display ++ ") at " ++ revision.display
  | .incompatible name reasons =>
    "schema " ++ name ++ " is incompatible with its previous version: "
      ++ "; ".intercalate (reasons.map Reason.message)
  | .malformed revision damage =>
    "malformed schema header at " ++ revision.display ++ ": " ++ damage.message
  | .invalid name flaw => "invalid schema " ++ name ++ ": " ++ flaw.message

/-- The first flaw of a schema as an error. -/
def validate (schema : Schema) : Except Error Unit :=
  match schema.flaw? with
  | some flaw => .error (.invalid schema.name flaw)
  | none => .ok ()

end CommitLog.Schema
