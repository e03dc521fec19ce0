import CommitLog.Proofs.Handover.Whole
import CommitLog.Proofs.Resuming.Trace

/-!
# Session after session

A subscriber is given one session after another over the same log. A session begins at the
checkpoint that was kept last, and may come to its end between any two things that are asked of the
subscriber: because the subscriber fails, because the session is cancelled or the topic is closed,
or because everything stops. `Step` has these endings beside the pieces of a session that goes well.
Around it writers append, others consume, and the topic is closed and opened again; a write that was
cut short may have left something behind the whole frames.
-/

namespace CommitLog.Resuming

open CommitLog.Disk (Place top)
open CommitLog.Handover (Begins Happens Occurs Phase Replaying Run)
open CommitLog.Partition (Leftover encodeAll)
open CommitLog.Topic (Folder filePlace)

variable {σ : Type}

/-! ## Sessions -/

/-- What a session can come to next. -/
inductive Moves (inner : Subscriber σ) (run : Run (σ × List Event)) :
    Run (σ × List Event) → Prop where
  /-- A session begins. The subscriber may be left with anything but the checkpoint. -/
  | began {state : σ × List Event} (phase_eq : run.phase = .ended state) (own : σ) :
      Moves inner run { run with phase := .unregistered (own, state.2) }
  | registered {state : σ × List Event} (phase_eq : run.phase = .unregistered state)
      (idle : run.worker = .idle) :
      Moves inner run
        { run with
          topic := { run.topic with queue := run.topic.queue.subscribe.2 }
          phase := .registered
            ⟨run.topic.name, run.topic.queue.subscribe.1, run.topic.tails⟩ state }
  | loaded {tail : HotTail} {state : σ × List Event} (phase_eq : run.phase = .registered tail state)
      (resumes : (inner.load state.1).1 = lastSaved state.2) :
      Moves inner run
        { run with
          phase := .replaying tail (inner.load state.1).1
            (.between ((List.range run.topic.partitions.length).map UInt32.ofNat))
            ⟨(inner.load state.1).1, ((traced inner).load state).2, 0⟩ }
  | replayed {tail : HotTail} {checkpoint : Revisions} {todo moved : Replaying}
      {follower after : Follower (σ × List Event)}
      (phase_eq : run.phase = .replaying tail checkpoint todo follower)
      (advance : todo.advance (traced inner) run.read tail.revisions follower = .ok (moved, after)) :
      Moves inner run { run with phase := .replaying tail checkpoint moved after }
  /-- A commit is handed over, and that is the end: the subscriber panics, or everything stops. -/
  | replayBroken {tail : HotTail} {checkpoint : Revisions} {number : UInt32} {later : List UInt32}
      {start : UInt64} {commit : RawCommit} {rest : List RawCommit} {whole : Bool}
      {follower : Follower (σ × List Event)}
      (phase_eq : run.phase
        = .replaying tail checkpoint (.handing number later start (commit :: rest) whole) follower) :
      Moves inner run
        { run with phase := .ended ((traced inner).handle commit follower.state).2 }
  /-- A commit is refused; the checkpoint in front of it is saved, or is not. -/
  | replayRefused {tail : HotTail} {checkpoint : Revisions} {number : UInt32}
      {later : List UInt32} {start : UInt64} {commit : RawCommit} {rest : List RawCommit}
      {whole : Bool} {follower : Follower (σ × List Event)} {error : LogError}
      (phase_eq : run.phase
        = .replaying tail checkpoint (.handing number later start (commit :: rest) whole) follower)
      (refused : ((traced inner).handle commit follower.state).1 = .refused error) :
      Moves inner run
        { run with
          phase := .ended (({ follower with
            state := ((traced inner).handle commit follower.state).2 }.save (traced inner)).2.state) }
  /-- A chunk has been handed over; its checkpoint is saved, or is not, and that is the end. -/
  | replaySaved {tail : HotTail} {checkpoint : Revisions} {number : UInt32} {later : List UInt32}
      {start : UInt64} {whole : Bool} {follower : Follower (σ × List Event)}
      (phase_eq : run.phase
        = .replaying tail checkpoint (.handing number later start [] whole) follower) :
      Moves inner run { run with phase := .ended (follower.saveNew (traced inner)).2.state }
  | switched {tail : HotTail} {checkpoint : Revisions} {follower : Follower (σ × List Event)}
      (phase_eq : run.phase = .replaying tail checkpoint (.between []) follower) :
      Moves inner run
        { run with
          phase := .live checkpoint tail.consumer ⟨follower.reached, follower.state, 0⟩ }
  | polled {checkpoint : Revisions} {consumer : Queue.ConsumerId}
      {follower later : Follower (σ × List Event)} {queue : Queue RawCommit}
      (phase_eq : run.phase = .live checkpoint consumer follower)
      (poll : Delivery.poll (traced inner) consumer run.topic.queue follower
        = (.more, queue, later)) :
      Moves inner run
        { run with
          topic := { run.topic with queue }
          phase := .live checkpoint consumer later }
  /-- A round is over; a commit may have been refused. -/
  | concluded {checkpoint : Revisions} {consumer : Queue.ConsumerId}
      {follower later : Follower (σ × List Event)} {turn : Delivery.Turn} {queue : Queue RawCommit}
      (phase_eq : run.phase = .live checkpoint consumer follower)
      (poll : Delivery.poll (traced inner) consumer run.topic.queue follower = (turn, queue, later))
      (isOver : turn ≠ .more) :
      Moves inner run
        { run with
          topic := { run.topic with queue }
          phase :=
            match Delivery.conclude (traced inner) turn later with
            | (none, follower) => .live checkpoint consumer follower
            | (some _, follower) => .ended follower.state }
  /-- A commit is handed over, and everything stops. -/
  | broken {checkpoint : Revisions} {consumer : Queue.ConsumerId}
      {follower : Follower (σ × List Event)} {commit : RawCommit} {queue : Queue RawCommit}
      (phase_eq : run.phase = .live checkpoint consumer follower)
      (next : run.topic.queue.next consumer = (.ready commit, queue))
      (isNew : follower.reached.covers commit.actual = false) :
      Moves inner run
        { run with
          topic := { run.topic with queue }
          phase := .ended ((traced inner).handle commit follower.state).2 }
  /-- The delivery sees that it is cancelled; what is new is saved, or is not. -/
  | cancelled {checkpoint : Revisions} {consumer : Queue.ConsumerId}
      {follower : Follower (σ × List Event)}
      (phase_eq : run.phase = .live checkpoint consumer follower) :
      Moves inner run { run with phase := .ended (follower.saveNew (traced inner)).2.state }
  /-- The session comes to its end, for whatever reason, without anything else. -/
  | left : Moves inner run { run with phase := .ended run.phase.state }

/-! ## The log -/

/-- What is on the disk of a topic that nobody has open: all commits, and behind them perhaps the
beginning of a write. -/
structure Remains (config : Config) (folder : Folder) (root : Path) (home : Place)
    (commits : List RawCommit) (leftover : UInt32 → Bytes) (disk : Disk) : Prop where
  sound : disk.Sound
  reliable : disk.Reliable
  follows : disk.follow (.directory top) root.segments = .ok (.directory home.directory)
  entry : disk.entryAt? home = some (.directory folder.directory)
  stores : ∀ number, number < config.partitions →
    disk.Stores (filePlace folder.directory number)
      (encodeAll (framesIn commits number) ++ leftover number)
  isLeftover : ∀ number, number < config.partitions →
    Leftover config.maxEntryBytes (leftover number)

/-- The smallest piece of a run. -/
inductive Step (config : Config) (root : Path) (folder : Folder) (home : Place)
    (inner : Subscriber σ) (run : Run (σ × List Event)) : Run (σ × List Event) → Prop where
  | moves {next : Run (σ × List Event)} (h : Moves inner run next) :
      Step config root folder home inner run next
  | happens {next : Run (σ × List Event)} (h : Happens folder run next) :
      Step config root folder home inner run next
  /-- The queue takes no more. -/
  | stopped :
      Step config root folder home inner run
        { run with topic := { run.topic with queue := run.topic.queue.stop } }
  /-- Whatever waited for room has given up, and consumers are to come to their end. -/
  | disconnected (isClosed : run.topic.queue.isClosed = true)
      (given : ∀ results backlog, run.worker ≠ .held results backlog) :
      Step config root folder home inner run
        { run with topic := Topic.wake { run.topic with queue := run.topic.queue.disconnect } }
  | shut (idle : run.worker = .idle) :
      Step config root folder home inner run
        { run with
          topic := (run.topic.shutDown run.env).1
          env := (run.topic.shutDown run.env).2 }
  /-- The topic is opened again, from what was left of it. -/
  | reopened {state : σ × List Event} {settings : Config} {leftover : UInt32 → Bytes}
      {remains disk : Disk} {topic : Topic} (phase_eq : run.phase = .ended state)
      (isLeft : Remains config folder root home run.commits leftover remains)
      (valid : settings.isValid = true) (partitions_eq : settings.partitions = config.partitions)
      (limit_eq : settings.maxEntryBytes = config.maxEntryBytes)
      (repairs : ∀ number, number < config.partitions → leftover number = [] ∨
        settings.repairTornTail = true ∧ settings.openFlags.contains .append = true)
      (recovered : Topic.recover settings root home.name remains = (.ok topic, disk)) :
      Step config root folder home inner run
        { topic, env := { run.env with disk }, past := run.commits, phase := .ended state }

/-- What a run can come to, in whatever order things happen. Nothing was asked of the subscriber
before. -/
inductive Reachable (config : Config) (root : Path) (folder : Folder) (home : Place)
    (inner : Subscriber σ) : Run (σ × List Event) → Prop where
  | begins {own : σ} {run : Run (σ × List Event)}
      (h : Begins config root folder home (own, []) run) :
      Reachable config root folder home inner run
  | step {run next : Run (σ × List Event)} (h : Reachable config root folder home inner run)
      (hstep : Step config root folder home inner run next) :
      Reachable config root folder home inner next

/-- One point of a run is followed by another. -/
abbrev Leads (config : Config) (root : Path) (folder : Folder) (home : Place)
    (inner : Subscriber σ) : Run (σ × List Event) → Run (σ × List Event) → Prop :=
  Relation.ReflTransGen (Step config root folder home inner)

/-- What happens around the sessions, as for a single one. -/
theorem leads_of_occurs {config : Config} {root : Path} {folder : Folder} {home : Place}
    {inner : Subscriber σ} {run next : Run (σ × List Event)} (h : Occurs folder run next) :
    Leads config root folder home inner run next :=
  Relation.ReflTransGen.mono (fun _ _ hstep => Step.happens hstep) _ _ h

theorem Reachable.leads {config : Config} {root : Path} {folder : Folder} {home : Place}
    {inner : Subscriber σ} {run next : Run (σ × List Event)}
    (h : Reachable config root folder home inner run)
    (hleads : Leads config root folder home inner run next) :
    Reachable config root folder home inner next := by
  induction hleads with
  | refl => exact h
  | tail _ hstep ih => exact ih.step hstep

end CommitLog.Resuming
