import CommitLog.Json.Node.Access
import CommitLog.Sha256

/-!
# Fingerprints

A fingerprint tells the versions of a schema apart: the first eight bytes of the SHA-256 hash of
its canonical form, as a little-endian word.
-/

namespace CommitLog

/-- The compact identity of a version of a schema. -/
structure Fingerprint where
  value : UInt64
deriving DecidableEq, Repr, Inhabited

namespace Fingerprint

/-- The fingerprint of canonical bytes. -/
def ofBytes (canonical : Bytes) : Fingerprint :=
  ⟨UInt64.ofNat (Bytes.toNat ((Sha256.digest canonical).take 8))⟩

/-- Sixteen hexadecimal digits. -/
def display (fingerprint : Fingerprint) : String := Text.Hex.padded 16 fingerprint.value.toNat

/-- The text of a fingerprint: a number. -/
def toJsonText (fingerprint : Fingerprint) : List Char := Decimal.text fingerprint.value.toNat

/-- A fingerprint from its JSON form. -/
def ofNode? (node : Json.Node) : Option Fingerprint := node.uint64?.map mk

end Fingerprint

end CommitLog
