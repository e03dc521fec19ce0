import CommitLog.Actor.Error
import CommitLog.Config
import CommitLog.Disk.Failure
import CommitLog.Partition.Damage
import CommitLog.Queue.Error
import CommitLog.Reaction
import CommitLog.Schema.Error
import CommitLog.Text.Quoted

/-!
# Errors of a log

Every way in which an operation on a log fails. An error carries its cause as data; `message` puts
it into words. A lost race for the tail is no error but an outcome.
-/

namespace CommitLog

/-- Why a position cannot be read from. -/
inductive Misposition where
  /-- The position is beyond the tail. -/
  | beyondTail (tail : UInt64)
  /-- No frame starts there. -/
  | noBoundary
  /-- The bytes there do not begin a frame. -/
  | frame (error : Frame.Error)
  /-- A reason that someone else put into words. -/
  | described (text : String)
deriving DecidableEq, Repr, Inhabited

/-- What is said about a position. -/
def Misposition.message : Misposition → String
  | .beyondTail tail => "beyond the partition tail at " ++ toString tail.toNat
  | .noBoundary => "not a frame boundary"
  | .frame error => error.message
  | .described text => text

/-- Why an operation is not permitted. -/
inductive Refusal where
  /-- A commit without entries. -/
  | emptyCommit
  /-- The log was opened for reading only. -/
  | withoutAppend
  /-- No directory can have the name. -/
  | topicName (name : String)
  /-- A reason that someone else put into words. -/
  | described (text : String)
deriving DecidableEq, Repr, Inhabited

/-- What is said about an operation that is not permitted. -/
def Refusal.message : Refusal → String
  | .emptyCommit => "a commit must carry at least one entry"
  | .withoutAppend => "channel was opened without APPEND"
  | .topicName name => "invalid topic name " ++ Text.quoted name
  | .described text => text

/-- Why a subscriber takes no more commits. -/
inductive SubscriberFailure where
  /-- The subscriber itself said so. -/
  | reported (text : String)
  /-- The subscriber panicked. -/
  | deliveryFailed
deriving DecidableEq, Repr, Inhabited

/-- What is said about a subscriber that failed. -/
def SubscriberFailure.message : SubscriberFailure → String
  | .reported text => text
  | .deliveryFailed => "delivery task failed"

/-- Why an operation on a log fails. -/
inductive LogError where
  | io (failure : Disk.Failure) (path : Option String)
  | invalidPosition (revision : Revision) (reason : Misposition)
  | corrupt (path : String) (pos : Nat) (damage : Partition.Damage)
  | entryTooLarge (length limit : Nat)
  | invalidPartition (topic : String) (partition partitions : UInt32)
  | unknownTopic (topic : String)
  | invalidOperation (reason : Refusal)
  | invalidConfig (problem : Config.Problem)
  /-- A topic is closed, or the whole log, which is named by its root. -/
  | closed (resource : String)
  | subscriber (failure : SubscriberFailure)
  | actor (error : Actor.Error)
  | queue (error : Queue.Error)
  | schema (error : Schema.Error)
  | reaction (error : Reaction.Error)
deriving DecidableEq, Repr, Inhabited

namespace LogError

/-- What the error that is wrapped by an error says. -/
def source? : LogError → Option String
  | actor error => some error.message
  | queue error => some error.message
  | schema error => some error.message
  | reaction error => some error.message
  | _ => none

/-- What is said about a failure. -/
def message : LogError → String
  | io failure none => "log I/O error: " ++ failure.message
  | io failure (some path) => "log I/O error at " ++ path ++ ": " ++ failure.message
  | invalidPosition revision reason =>
    "invalid read position " ++ revision.display ++ ": " ++ reason.message
  | corrupt path pos damage =>
    "corrupt log frame in " ++ path ++ " at byte " ++ toString pos ++ ": " ++ damage.message
  | entryTooLarge length limit =>
    "log entry too large: " ++ toString length ++ " bytes exceeds limit of " ++ toString limit
      ++ " bytes"
  | invalidPartition topic partition partitions =>
    "topic " ++ topic ++ " has " ++ toString partitions.toNat ++ " partitions, partition "
      ++ toString partition.toNat ++ " does not exist"
  | unknownTopic topic => "unknown topic: " ++ topic
  | invalidOperation reason => "invalid operation: " ++ reason.message
  | invalidConfig problem => "invalid log configuration: " ++ problem.message
  | closed resource => resource ++ " is closed"
  | subscriber failure => "subscriber failed: " ++ failure.message
  | actor error => "actor error: " ++ error.message
  | queue error => "queue error: " ++ error.message
  | schema error => "schema error: " ++ error.message
  | reaction error => "reaction error: " ++ error.message

/-- Whether something is closed, and no other reason holds. -/
def isClosed : LogError → Bool
  | closed _ => true
  | actor (.closed _) => true
  | _ => false

end LogError

end CommitLog
