import CommitLog.Delivery
import CommitLog.Proofs.Topic.Life

/-!
# From cold to hot, step by step

A subscription registers a consumer, replays what was committed before, and goes on with what the
queue hands over. Meanwhile writers append and publish. `Step` takes all of this apart into the
smallest pieces that others can come in between: one attempt, one batch, one read, one commit that
is handed on, one poll. What the running definitions do in one go is a row of such steps.

The commits are not kept on the side: they are those of the units that are done, and those among
the results of the unit that the worker is at. The same holds for what was delivered: it is what a
recorded subscriber has taken (`Subscriber.recorded`).
-/

namespace CommitLog

/-! ## Subscribers -/

/-- A subscriber that takes every commit and keeps every checkpoint. -/
structure Subscriber.NeverFails {σ : Type} (subscriber : Subscriber σ) : Prop where
  handle : ∀ commit state, (subscriber.handle commit state).1 = .taken
  save : ∀ revisions state, (subscriber.save revisions state).1 = .ok ()

/-- A subscriber together with a record of the commits that it has taken. -/
def Subscriber.recorded {σ : Type} (subscriber : Subscriber σ) :
    Subscriber (σ × List RawCommit) where
  load state :=
    let (revisions, own) := subscriber.load state.1
    (revisions, own, state.2)
  handle commit state :=
    match subscriber.handle commit state.1 with
    | (.taken, own) => (.taken, own, state.2 ++ [commit])
    | (handled, own) => (handled, own, state.2)
  save revisions state :=
    let (result, own) := subscriber.save revisions state.1
    (result, own, state.2)

namespace Handover

open CommitLog.Disk (Place Keeps)
open CommitLog.Topic (Backlog Folder commitsOf pieces publishBatch)

variable {σ : Type}

/-! ## Writers -/

/-- Where the worker of a topic is in a unit of attempts. -/
inductive Worker where
  | idle
  /-- Attempts are left to be appended. -/
  | appending (attempts : List RawAttempt) (results : List (Except LogError RawOutcome))
  /-- Batches are left to be handed to the queue. -/
  | publishing (results : List (Except LogError RawOutcome)) (batches : List (List RawCommit))
  /-- A batch waits for room in the queue. -/
  | held (results : List (Except LogError RawOutcome)) (backlog : Backlog)

namespace Worker

/-- The commits that the unit has made. -/
def commits : Worker → List RawCommit
  | idle => []
  | appending _ results => commitsOf results
  | publishing results _ => commitsOf results
  | held results _ => commitsOf results

/-- The commits that are not published yet. -/
def pending : Worker → List RawCommit
  | idle => []
  | appending _ results => commitsOf results
  | publishing _ batches => batches.flatten
  | held _ backlog => backlog.publication.batch ++ backlog.later.flatten

/-- Where the worker is when the queue has been given a batch, with those behind it. -/
def afterBatch (results : List (Except LogError RawOutcome)) (later : List (List RawCommit))
    (topic : Topic) : Queue.Progress RawCommit × Queue RawCommit → Worker × Topic
  | (.published, queue) => (publishing results later, { topic with queue }.wake)
  | (.rejected _, queue) => (publishing results [], { topic with queue })
  | (.waiting publication, queue) => (held results ⟨publication, later⟩, { topic with queue })

/-- The worker goes one step further: it appends an attempt, cuts the commits into batches, or
hands a batch to the queue. -/
def advance : Worker → Topic → Env → Worker × Topic × Env
  | idle, topic, env => (idle, topic, env)
  | appending [] results, topic, env =>
    let commits := commitsOf results
    (publishing results (pieces (topic.queue.capacity?.getD commits.length) commits), topic, env)
  | appending (attempt :: later) results, topic, env =>
    let (result, topic, env) := topic.append attempt env
    (appending later (results ++ [result]), topic, env)
  | publishing results [], topic, env => (publishing results [], topic, env)
  | publishing results (batch :: later), topic, env =>
    let (worker, topic) := afterBatch results later topic (publishBatch topic.queue batch)
    (worker, topic, env)
  | held results backlog, topic, env =>
    let (worker, topic) :=
      afterBatch results backlog.later topic (topic.queue.resume backlog.publication)
    (worker, topic, env)

end Worker

/-! ## The subscription -/

/-- Where a replay is. -/
inductive Replaying where
  /-- The first of these partitions is to be looked at. -/
  | between (numbers : List UInt32)
  /-- Commits that were read from a partition are left to be handed on; the position is that of the
  read, and `whole` says that nothing of it was left out. -/
  | handing (number : UInt32) (later : List UInt32) (start : UInt64) (rest : List RawCommit)
      (whole : Bool)

/-- A replay goes one step further: it passes over a partition, reads from one, hands on a commit,
or has the checkpoint saved. -/
def Replaying.advance (subscriber : Subscriber σ)
    (read : Revision → Except LogError (List RawCommit)) (stop : Revisions) :
    Replaying → Follower σ → Except LogError (Replaying × Follower σ)
  | between [], follower => .ok (between [], follower)
  | between (number :: later), follower =>
    let start := follower.reached.get number
    if (stop.get number).offset ≤ start.offset then .ok (between later, follower)
    else
      match read start with
      | .error e => .error e
      | .ok chunk =>
        let within := chunk.takeWhile fun commit =>
          decide (commit.actual.offset ≤ (stop.get number).offset)
        .ok (handing number later start.offset within (decide (chunk.length ≤ within.length)),
          follower)
  | handing number later start (commit :: rest) whole, follower =>
    match subscriber.handle commit follower.state with
    | (.taken, state) => .ok (handing number later start rest whole, follower.taken commit state)
    | (.refused error, _) => .error error
    | (.panicked, _) => .error (.subscriber .deliveryFailed)
  | handing number later start [] whole, follower =>
    match follower.saveNew subscriber with
    | (.error e, _) => .error e
    | (.ok (), follower) =>
      if whole = false ∨ (follower.reached.get number).offset ≤ start then
        .ok (between later, follower)
      else .ok (between (number :: later), follower)

/-- How far a subscription has come. -/
inductive Phase (σ : Type) where
  | unregistered (state : σ)
  | registered (tail : HotTail) (state : σ)
  | replaying (tail : HotTail) (checkpoint : Revisions) (todo : Replaying) (follower : Follower σ)
  | live (checkpoint : Revisions) (consumer : Queue.ConsumerId) (follower : Follower σ)
  | ended (state : σ)

namespace Phase

/-- The state of the subscriber. -/
def state : Phase σ → σ
  | unregistered state => state
  | registered _ state => state
  | replaying _ _ _ follower => follower.state
  | live _ _ follower => follower.state
  | ended state => state

/-- The consumer of the subscription. -/
def consumer? : Phase σ → Option Queue.ConsumerId
  | registered tail _ => some tail.consumer
  | replaying tail _ _ _ => some tail.consumer
  | live _ consumer _ => some consumer
  | _ => none

/-- The checkpoint that the subscription has begun at. -/
def checkpoint? : Phase σ → Option Revisions
  | replaying _ checkpoint _ _ => some checkpoint
  | live checkpoint _ _ => some checkpoint
  | _ => none

end Phase

/-! ## Runs -/

/-- A topic with one worker and one subscription. -/
structure Run (σ : Type) where
  topic : Topic
  env : Env
  worker : Worker := .idle
  /-- The commits of the units that are done, and of earlier services. -/
  past : List RawCommit
  phase : Phase σ

/-- The commits of a topic so far, in order. -/
def Run.commits (run : Run σ) : List RawCommit := run.past ++ run.worker.commits

/-- The position behind a row of commits of one partition. -/
def extent (commits : List RawCommit) : Nat := Partition.entryCount (commits.map Commit.frame)

/-- The commits of a partition after a checkpoint, in order. -/
def commitsAfter (commits : List RawCommit) (checkpoint : Revisions) (number : UInt32) :
    List RawCommit :=
  (commitsIn commits number).filter fun commit =>
    decide ((checkpoint.get number).offset ≤ commit.expected.offset)

/-- A checkpoint lies between two commits of every partition, and not beyond the tails. -/
def IsBoundary (config : Config) (commits : List RawCommit) (checkpoint tails : Revisions) :
    Prop :=
  ∀ number, number < config.partitions →
    ∃ front later, commitsIn commits number = front ++ later ∧
      extent front = (checkpoint.get number).offset.toNat ∧
      (checkpoint.get number).offset ≤ (tails.get number).offset

/-- What a subscription can come to next by itself. -/
inductive Moves (config : Config) (subscriber : Subscriber σ) (run : Run σ) :
    Run σ → Prop where
  /-- The unit that registers the consumer and reads the tails. -/
  | registered {state : σ} (phase_eq : run.phase = .unregistered state)
      (idle : run.worker = .idle) :
      Moves config subscriber run
        { run with
          topic := { run.topic with queue := run.topic.queue.subscribe.2 }
          phase := .registered
            ⟨run.topic.name, run.topic.queue.subscribe.1, run.topic.tails⟩ state }
  | loaded {tail : HotTail} {state : σ} (phase_eq : run.phase = .registered tail state)
      (boundary : IsBoundary config run.commits (subscriber.load state).1 tail.revisions) :
      Moves config subscriber run
        { run with
          phase := .replaying tail (subscriber.load state).1
            (.between ((List.range run.topic.partitions.length).map UInt32.ofNat))
            ⟨(subscriber.load state).1, (subscriber.load state).2, 0⟩ }
  | replayed {tail : HotTail} {checkpoint : Revisions} {todo : Replaying} {follower : Follower σ}
      (phase_eq : run.phase = .replaying tail checkpoint todo follower) :
      Moves config subscriber run
        { run with
          phase :=
            match todo.advance subscriber
              (fun start => run.topic.read run.env.disk start Replay.chunkSize) tail.revisions
              follower with
            | .ok (todo, follower) => .replaying tail checkpoint todo follower
            | .error _ => .ended follower.state }
  | switched {tail : HotTail} {checkpoint : Revisions} {follower : Follower σ}
      (phase_eq : run.phase = .replaying tail checkpoint (.between []) follower) :
      Moves config subscriber run
        { run with
          phase := .live checkpoint tail.consumer ⟨follower.reached, follower.state, 0⟩ }
  | polled {checkpoint : Revisions} {consumer : Queue.ConsumerId} {follower later : Follower σ}
      {queue : Queue RawCommit} (phase_eq : run.phase = .live checkpoint consumer follower)
      (poll : Delivery.poll subscriber consumer run.topic.queue follower = (.more, queue, later)) :
      Moves config subscriber run
        { run with
          topic := { run.topic with queue }
          phase := .live checkpoint consumer later }
  /-- A round is over. -/
  | concluded {checkpoint : Revisions} {consumer : Queue.ConsumerId} {follower later : Follower σ}
      {turn : Delivery.Turn} {queue : Queue RawCommit}
      (phase_eq : run.phase = .live checkpoint consumer follower)
      (poll : Delivery.poll subscriber consumer run.topic.queue follower = (turn, queue, later))
      (isOver : turn ≠ .more) :
      Moves config subscriber run
        { run with
          topic := { run.topic with queue }
          phase :=
            match Delivery.conclude subscriber turn later with
            | (none, follower) => .live checkpoint consumer follower
            | (some _, follower) => .ended follower.state }

/-- What can happen around a subscription: writers, other consumers, and the rest of the world. -/
inductive Happens (folder : Folder) (run : Run σ) : Run σ → Prop where
  | submitted (attempts : List RawAttempt) (idle : run.worker = .idle) :
      Happens folder run { run with worker := .appending attempts [] }
  | worked :
      Happens folder run
        { run with
          worker := (run.worker.advance run.topic run.env).1
          topic := (run.worker.advance run.topic run.env).2.1
          env := (run.worker.advance run.topic run.env).2.2 }
  | finished {results : List (Except LogError RawOutcome)}
      (worker_eq : run.worker = .publishing results []) :
      Happens folder run { run with worker := .idle, past := run.commits }
  | otherRegistered :
      Happens folder run
        { run with topic := { run.topic with queue := run.topic.queue.subscribe.2 } }
  | otherPolled (other : Queue.ConsumerId) (ne : run.phase.consumer? ≠ some other) :
      Happens folder run
        { run with topic := { run.topic with queue := (run.topic.queue.next other).2 } }
  | otherLeft (other : Queue.ConsumerId) (ne : run.phase.consumer? ≠ some other) :
      Happens folder run
        { run with topic := { run.topic with queue := run.topic.queue.unsubscribe other } }
  | elsewhere {env : Env}
      (keeps : Keeps run.env.disk env.disk (Place.directory · = folder.directory)) :
      Happens folder run { run with env }

/-- The smallest piece of a run. -/
inductive Step (config : Config) (folder : Folder) (subscriber : Subscriber σ) (run next : Run σ) :
    Prop where
  | moves (h : Moves config subscriber run next) : Step config folder subscriber run next
  | happens (h : Happens folder run next) : Step config folder subscriber run next

/-- A topic that was just opened, at any point of its life, and somebody who is to subscribe. -/
structure Begins (config : Config) (root : Path) (folder : Folder) (home : Place) (state : σ)
    (run : Run σ) : Prop where
  worker : run.worker = .idle
  phase : run.phase = .unregistered state
  path_eq : folder.path = root.child home.name
  entry : run.env.disk.entryAt? home = some (.directory folder.directory)
  opened : ∃ life, Topic.Reachable config root home life ∧ life.service = none ∧
    run.past = life.commits ∧ ∃ (settings : Config) (disk : Disk), settings.isValid = true ∧
      settings.partitions = config.partitions ∧ settings.maxEntryBytes = config.maxEntryBytes ∧
      Topic.recover settings root home.name life.env.disk = (.ok run.topic, disk) ∧
      run.env = { life.env with disk }

/-- What a run can come to, in whatever order things happen. -/
inductive Reachable (config : Config) (root : Path) (folder : Folder) (home : Place)
    (subscriber : Subscriber σ) (state : σ) : Run σ → Prop where
  | begins {run : Run σ} (h : Begins config root folder home state run) :
      Reachable config root folder home subscriber state run
  | step {run next : Run σ} (h : Reachable config root folder home subscriber state run)
      (hstep : Step config folder subscriber run next) :
      Reachable config root folder home subscriber state next

end Handover

end CommitLog
