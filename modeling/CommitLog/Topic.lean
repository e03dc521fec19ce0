import CommitLog.Partition.Append
import CommitLog.Partition.Read
import CommitLog.Queue.Transaction
import CommitLog.Revisions

/-!
# Topics

A topic is a row of partitions together with the queue that hands its commits to live consumers.
An attempt goes to the partition that it names. It is refused for what it is before the tail of
its partition is looked at, and a refusal leaves everything as it was.
-/

namespace CommitLog

/-- A topic that has been recovered from its files. -/
structure Topic where
  name : String
  partitions : List Partition
  queue : Queue RawCommit
  /-- How often live deliveries were told to look at the queue. -/
  wakeups : Nat := 0
  /-- Whether every frame is forced to stable storage. -/
  durable : Bool := false
  /-- The longest key or entry. -/
  maxEntryBytes : Nat
  /-- The longest stretch of a file that is looked at at once. -/
  maxMapBytes : Nat

namespace Topic

/-- The tails of all partitions. -/
def tails (topic : Topic) : Revisions := .ofList (topic.partitions.map Partition.tail)

/-- The partition of a number. -/
def partition (topic : Topic) (number : UInt32) : Except LogError Partition :=
  match topic.partitions[number.toNat]? with
  | some p => .ok p
  | none =>
    .error (.invalidPartition topic.name number (UInt32.ofNat topic.partitions.length))

/-- The topic with a partition in place of the one of that number. -/
def putPartition (topic : Topic) (number : UInt32) (p : Partition) : Topic :=
  { topic with partitions := topic.partitions.set number.toNat p }

/-- Tells live deliveries to look at the queue. -/
def wake (topic : Topic) : Topic := { topic with wakeups := topic.wakeups + 1 }

/-! ## Appending -/

/-- Why an attempt can never become a commit, whatever the tail is. -/
def refusal? (topic : Topic) (attempt : RawAttempt) : Option LogError :=
  if attempt.isEmpty then some (.invalidOperation .emptyCommit)
  else if topic.maxEntryBytes < attempt.largest then
    some (.entryTooLarge attempt.largest topic.maxEntryBytes)
  else none

/-- Appends an attempt to its partition if its writer expects the tail where it is. -/
def append (topic : Topic) (attempt : RawAttempt) (env : Env) :
    Except LogError RawOutcome × Topic × Env :=
  let number := attempt.expected.partition
  match topic.partition number with
  | .error e => (.error e, topic, env)
  | .ok p =>
    match topic.refusal? attempt with
    | some e => (.error e, topic, env)
    | none =>
      let (result, p, env) := p.append topic.durable attempt env
      (result, topic.putPartition number p, env)

/-- Appends attempts one after another; a later one may build on an earlier one. -/
def appendAll : List RawAttempt → Topic → Env →
    List (Except LogError RawOutcome) × Topic × Env
  | [], topic, env => ([], topic, env)
  | attempt :: later, topic, env =>
    let (result, topic, env) := topic.append attempt env
    let (results, topic, env) := appendAll later topic env
    (result :: results, topic, env)

/-- The commits among the results of attempts. -/
def commitsOf (results : List (Except LogError RawOutcome)) : List RawCommit :=
  results.filterMap fun result => result.toOption.bind Outcome.commit?

/-! ## Reading -/

/-- Reads up to `count` commits of a partition from a position on. -/
def read (topic : Topic) (disk : Disk) (start : Revision) (count : Nat) :
    Except LogError (List RawCommit) := do
  let p ← topic.partition start.partition
  p.read disk topic.maxEntryBytes topic.maxMapBytes start count

/-- Scans all files again. The answer is how far each reaches. -/
def verify (topic : Topic) (disk : Disk) : Except LogError Revisions :=
  Revisions.ofList <$>
    topic.partitions.mapM fun p => p.verify disk topic.maxEntryBytes topic.maxMapBytes

/-- Releases the files. What has been written is forced to stable storage first, as far as that
succeeds. -/
def release : List Partition → Disk → List Partition × Disk
  | [], disk => ([], disk)
  | p :: later, disk =>
    let disk := match p.handle with
      | some handle => (disk.sync handle).2
      | none => disk
    let (later, disk) := release later disk
    ({ p with handle := none } :: later, disk)

/-- Ends a topic: its files are released, and its consumers come to an end. -/
def shutDown (topic : Topic) (env : Env) : Topic × Env :=
  let (partitions, disk) := release topic.partitions env.disk
  ({ topic with partitions, queue := topic.queue.close }.wake, { env with disk })

end Topic

end CommitLog
