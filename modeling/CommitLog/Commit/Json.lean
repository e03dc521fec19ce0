import CommitLog.Commit
import CommitLog.Revisions
import CommitLog.Json.Node.Access

/-!
# Commits as JSON

The JSON forms of identifiers, positions, checkpoints and commits. Bytes are written as a row of
numbers; partitions that are keys are written as strings.
-/

namespace CommitLog

open Json

/-- The text of a row of bytes. -/
def Bytes.toJsonText (bytes : Bytes) : List Char :=
  arrayText (bytes.map fun b => Decimal.text b.toNat)

namespace Identifier

/-- The text of an identifier. -/
def toJsonText (id : Identifier) : List Char :=
  objectText [("hi", Decimal.text id.hi.toNat), ("lo", Decimal.text id.lo.toNat)]

/-- An identifier from its JSON form. -/
def ofNode? (node : Node) : Option Identifier := do
  let [some hi, some lo] ← node.record? ["hi", "lo"] | none
  return ⟨← hi.uint64?, ← lo.uint64?⟩

end Identifier

namespace Revision

/-- The text of a position. -/
def toJsonText (r : Revision) : List Char :=
  objectText
    [("partition", Decimal.text r.partition.toNat), ("offset", Decimal.text r.offset.toNat)]

/-- A position from its JSON form. -/
def ofNode? (node : Node) : Option Revision := do
  let [some partition, some offset] ← node.record? ["partition", "offset"] | none
  return ⟨← partition.uint32?, ← offset.uint64?⟩

end Revision

namespace Revisions

/-- The text of a checkpoint. -/
def toJsonText (rs : Revisions) : List Char :=
  let members := rs.toList.map fun r =>
    (String.ofList (Decimal.text r.partition.toNat), Decimal.text r.offset.toNat)
  objectText [("positions", objectText members)]

/-- A checkpoint from its JSON form; of a repeated partition the last position counts. -/
def ofNode? (node : Node) : Option Revisions := do
  let [some positions] ← node.record? ["positions"] | none
  let members ← positions.numericMembers? UInt32.size Node.uint64?
  return ofList (members.map fun (partition, offset) => ⟨UInt32.ofNat partition, offset⟩)

end Revisions

namespace Commit

/-- The text of a commit. -/
def toJsonText (commit : RawCommit) : List Char :=
  objectText
    [("id", commit.id.toJsonText), ("timestamp_ms", Decimal.text commit.timestamp.toNat),
      ("key", commit.key.toJsonText),
      ("entries", arrayText (commit.entries.map Bytes.toJsonText)),
      ("actual", commit.actual.toJsonText), ("expected", commit.expected.toJsonText)]

/-- A commit from its JSON form. -/
def ofNode? (node : Node) : Option RawCommit := do
  let [some id, some timestamp, some key, some entries, some actual, some expected] ←
    node.record? ["id", "timestamp_ms", "key", "entries", "actual", "expected"] | none
  return {
    id := ← Identifier.ofNode? id
    timestamp := ← timestamp.uint64?
    key := ← key.bytes?
    entries := ← entries.list? Node.bytes?
    actual := ← Revision.ofNode? actual
    expected := ← Revision.ofNode? expected }

end Commit

end CommitLog
