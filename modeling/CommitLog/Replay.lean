import CommitLog.Subscriber
import CommitLog.Topic

/-!
# Cold replay

A replay hands the commits of a topic to a subscriber, partition by partition, from a checkpoint
up to a bound. Commits are read in chunks, and the checkpoint is saved behind each. When the
subscriber refuses a commit, the checkpoint in front of that commit is saved; should that fail,
the failure to save is what is reported.
-/

namespace CommitLog

namespace Replay

variable {σ : Type}

/-- How many commits a replay reads at once. -/
def chunkSize : Nat := 256

/-- What a replay meets when it hands on commits. -/
inductive Handing where
  | finished
  | refused (error : LogError)
  | panicked

/-- Hands on commits one after another, up to the first that is not taken. -/
def handAll (subscriber : Subscriber σ) : List RawCommit → Follower σ → Handing × Follower σ
  | [], follower => (.finished, follower)
  | commit :: later, follower =>
    match subscriber.handle commit follower.state with
    | (.taken, state) => handAll subscriber later (follower.taken commit state)
    | (.refused error, state) => (.refused error, { follower with state })
    | (.panicked, state) => (.panicked, { follower with state })

/-- Hands on a chunk of commits, and has the checkpoint saved. -/
def handChunk (subscriber : Subscriber σ) (chunk : List RawCommit) (follower : Follower σ) :
    Except LogError Unit × Follower σ :=
  match handAll subscriber chunk follower with
  | (.finished, follower) => follower.saveNew subscriber
  | (.refused error, follower) =>
    let (result, follower) := follower.save subscriber
    (result >>= fun () => .error error, follower)
  | (.panicked, follower) => (.error (.subscriber .deliveryFailed), follower)

/-- Replays a partition up to an offset. A commit that reaches beyond the offset is left out, and
ends the partition; so does a chunk that does not lead on. -/
def partition (subscriber : Subscriber σ) (read : Revision → Except LogError (List RawCommit))
    (number : UInt32) (stop : UInt64) (follower : Follower σ) : Except LogError Unit × Follower σ :=
  if _hstop : stop ≤ (follower.reached.get number).offset then (.ok (), follower)
  else
    match read (follower.reached.get number) with
    | .error e => (.error e, follower)
    | .ok chunk =>
      let within := chunk.takeWhile fun commit => decide (commit.actual.offset ≤ stop)
      match handChunk subscriber within follower with
      | (.error e, after) => (.error e, after)
      | (.ok (), after) =>
        if _hnext : within.length < chunk.length
            ∨ (after.reached.get number).offset ≤ (follower.reached.get number).offset then
          (.ok (), after)
        else partition subscriber read number stop after
termination_by stop.toNat - (follower.reached.get number).offset.toNat
decreasing_by
  have hgt := (not_or.1 _hnext).2
  rw [UInt64.le_iff_toNat_le] at hgt _hstop
  omega

/-- Replays partitions one after another. -/
def partitions (subscriber : Subscriber σ) (read : Revision → Except LogError (List RawCommit))
    (stop : Revisions) : List UInt32 → Follower σ → Except LogError Unit × Follower σ
  | [], follower => (.ok (), follower)
  | number :: later, follower =>
    match partition subscriber read number (stop.get number).offset follower with
    | (.error e, follower) => (.error e, follower)
    | (.ok (), follower) => partitions subscriber read stop later follower

end Replay

/-- Replays a topic from a checkpoint up to a bound, in chunks of a size. The answer is how far the
replay has come. -/
def Topic.replay {σ : Type} (topic : Topic) (disk : Disk) (subscriber : Subscriber σ)
    (chunkSize : Nat) (start stop : Revisions) (state : σ) : Except LogError Revisions × σ :=
  let numbers := (List.range topic.partitions.length).map UInt32.ofNat
  let read (position : Revision) := topic.read disk position chunkSize
  let (result, follower) := Replay.partitions subscriber read stop numbers ⟨start, state, 0⟩
  (result.map fun () => follower.reached, follower.state)

end CommitLog
