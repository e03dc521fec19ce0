import CommitLog.Config
import CommitLog.Json.Node.Access

/-!
# Configuration as JSON

The JSON form of the settings. Settings that are missing have their defaults. The fan-out is an
object with its kind among the members, or an array that begins with the kind.
-/

namespace CommitLog

open Json

namespace OpenFlags

/-- The JSON form of a set of flags: its text. -/
def toJson (flags : OpenFlags) : Value := .string flags.text

/-- Flags from their JSON form. -/
def ofNode? (node : Node) : Option OpenFlags := node.text?.bind ofText?

end OpenFlags

namespace Fanout

/-- The text of a fan-out, the kind first. -/
def toJsonText : Fanout → List Char
  | ring capacity =>
    objectText [("kind", stringText "ring"), ("capacity", Decimal.text capacity)]
  | mailbox maxPending =>
    objectText [("kind", stringText "mailbox"), ("max_pending_batches", Decimal.text maxPending)]

/-- A fan-out of a kind from its other members. -/
def ofKind? (kind : String) (content : Node) : Option Fanout :=
  if kind = "ring" then
    match content.record? ["capacity"] with
    | some [some capacity] => capacity.size?.map ring
    | _ => none
  else if kind = "mailbox" then
    match content.record? ["max_pending_batches"] with
    | some [some maxPending] => maxPending.size?.map mailbox
    | _ => none
  else none

/-- The members whose key is `name`, and the others. -/
def partitionMembers (name : String) :
    List (List Piece × Node) → Option (List Node × List (List Piece × Node))
  | [] => some ([], [])
  | (key, node) :: rest => do
    let text ← Piece.text? key
    let (tagged, others) ← partitionMembers name rest
    return if text = name then (node :: tagged, others) else (tagged, (key, node) :: others)

/-- A fan-out from its JSON form, which may open `depth` levels. Members that are not known have
to be values all the same. -/
def ofNode? (depth : Nat) : Node → Option Fanout
  | .object members => do
    let ([tag], others) ← partitionMembers "kind" members | none
    let kind ← tag.text?
    let _ ← Node.value? depth (.object others)
    ofKind? kind (.object others)
  | .array (tag :: others) => do
    let kind ← tag.text?
    let _ ← Node.value? depth (.array others)
    ofKind? kind (.array others)
  | _ => none

end Fanout

namespace Config

/-- The names of the settings in the order of their declaration. -/
def fieldNames : List String :=
  ["partitions", "max_entry_bytes", "max_map_bytes", "repair_torn_tail", "actor_mailbox",
    "fanout", "open_flags"]

/-- The text of the settings. -/
def toJsonText (config : Config) : List Char :=
  objectText (fieldNames.zip
    [Decimal.text config.partitions.toNat, Decimal.text config.maxEntryBytes,
      Decimal.text config.maxMapBytes, (Value.bool config.repairTornTail).text,
      Decimal.text config.actorMailbox, config.fanout.toJsonText, config.openFlags.toJson.text])

/-- Settings from their JSON form, not yet checked. -/
def ofNode? (depth : Nat) (node : Node) : Option Config := do
  let base : Config := {}
  let [partitions, maxEntryBytes, maxMapBytes, repairTornTail, actorMailbox, fanout, openFlags] ←
    node.record? fieldNames | none
  return {
    partitions := ← Node.orDefault base.partitions Node.uint32? partitions
    maxEntryBytes := ← Node.orDefault base.maxEntryBytes Node.size? maxEntryBytes
    maxMapBytes := ← Node.orDefault base.maxMapBytes Node.size? maxMapBytes
    repairTornTail := ← Node.orDefault base.repairTornTail Node.bool? repairTornTail
    actorMailbox := ← Node.orDefault base.actorMailbox Node.size? actorMailbox
    fanout := ← Node.orDefault base.fanout (Fanout.ofNode? (depth - 1)) fanout
    openFlags := ← Node.orDefault base.openFlags OpenFlags.ofNode? openFlags }

/-- Settings from a JSON text, or the first problem with them. -/
def parse (text : String) : Except Problem Config :=
  match (Node.ofText? text).bind (ofNode? maxDepth) with
  | none => .error .unreadable
  | some config =>
    match config.problem? with
    | some problem => .error problem
    | none => .ok config

end Config

end CommitLog
