import CommitLog.Config.Flags
import CommitLog.Frame

/-!
# Configuration of a log

The settings of a log and the rules that they have to keep. The rules are checked in a fixed
order, and the first that is broken is reported.
-/

namespace CommitLog

/-- How committed units are handed to live consumers. -/
inductive Fanout where
  /-- One ring of slots for all consumers. -/
  | ring (capacity : Nat)
  /-- One bounded mailbox for each consumer, counted in batches. -/
  | mailbox (maxPending : Nat)
deriving DecidableEq, Repr, Inhabited

/-- The settings of a log. -/
structure Config where
  /-- Partitions of each topic. -/
  partitions : UInt32 := 1
  /-- The longest key or entry. -/
  maxEntryBytes : Nat := 4 * 1024 * 1024
  /-- The longest stretch of a file that is looked at at once. -/
  maxMapBytes : Nat := 64 * 1024 * 1024
  /-- Whether opening cuts off a torn last frame. -/
  repairTornTail : Bool := true
  /-- How many units of work may wait for a topic. -/
  actorMailbox : Nat := 1024
  fanout : Fanout := .ring 4096
  openFlags : OpenFlags := .all
deriving DecidableEq, Repr, Inhabited

namespace Config

/-- The longest stretch of a file that an address space has room for. -/
def mapCeiling : Nat := 0x7FFFFFFFFFFFFFFF

/-- The longest stretch of a file that is looked at at once, within the address space. -/
def effectiveMaxMapBytes (config : Config) : Nat := min config.maxMapBytes mapCeiling

/-- Why settings are refused. -/
inductive Problem where
  /-- The text is no JSON of the right shape. -/
  | unreadable
  | noPartitions
  | entryLimitOutOfRange
  /-- A length that reads as the end of a frame. -/
  | entryLimitIsDelimiter
  | mapBelowEntry (maxMapBytes maxEntryBytes : Nat)
  | noActorMailbox
  | noRingCapacity
  | noPendingBatches
  /-- A problem that someone else put into words. -/
  | described (text : String)
deriving DecidableEq, Repr, Inhabited

/-- What is said about settings that are refused. -/
def Problem.message : Problem → String
  | .unreadable => "<json>"
  | .noPartitions => "partitions must be at least 1"
  | .entryLimitOutOfRange =>
    "max_entry_bytes must be between 1 and " ++ toString Frame.maxFieldLength
  | .entryLimitIsDelimiter => "max_entry_bytes collides with the commit delimiter"
  | .mapBelowEntry maxMapBytes maxEntryBytes =>
    "max_map_bytes (" ++ toString maxMapBytes ++ ") must be at least max_entry_bytes ("
      ++ toString maxEntryBytes ++ ")"
  | .noActorMailbox => "actor_mailbox must be at least 1"
  | .noRingCapacity => "ring capacity must be at least 1"
  | .noPendingBatches => "max_pending_batches must be at least 1"
  | .described text => text

/-- The first rule that the settings break. -/
def problem? (config : Config) : Option Problem :=
  if config.partitions = 0 then some .noPartitions
  else if config.maxEntryBytes = 0 ∨ Frame.maxFieldLength < config.maxEntryBytes then
    some .entryLimitOutOfRange
  else if Frame.delimiter.toNat ≤ config.maxEntryBytes then some .entryLimitIsDelimiter
  else if config.effectiveMaxMapBytes < config.maxEntryBytes then
    some (.mapBelowEntry config.maxMapBytes config.maxEntryBytes)
  else if config.actorMailbox = 0 then some .noActorMailbox
  else
    match config.fanout with
    | .ring 0 => some .noRingCapacity
    | .mailbox 0 => some .noPendingBatches
    | _ => none

/-- Whether the settings break no rule. -/
def isValid (config : Config) : Bool := config.problem?.isNone

end Config

end CommitLog
