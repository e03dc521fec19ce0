import CommitLog.Commit
import CommitLog.LogError
import CommitLog.Revisions

/-!
# Subscribers

A subscriber receives commits and keeps its own checkpoint. It is read once, before delivery
begins; from then on a `Follower` keeps count of what the subscriber has taken, and gives it
checkpoints to save.
-/

namespace CommitLog

/-- What comes of handing a commit to a subscriber. -/
inductive Handled where
  | taken
  /-- The subscriber takes no more. -/
  | refused (error : LogError)
  | panicked
deriving DecidableEq, Repr

/-- What a subscriber of state `σ` does. -/
structure Subscriber (σ : Type) where
  /-- The checkpoint to resume from. -/
  load : σ → Revisions × σ
  /-- Receives a commit. -/
  handle : RawCommit → σ → Handled × σ
  /-- Keeps a checkpoint. -/
  save : Revisions → σ → Except LogError Unit × σ

/-- A subscriber that follows a log: its state, and how far it has come. -/
structure Follower (σ : Type) where
  reached : Revisions
  state : σ
  /-- How many commits it has taken since its checkpoint was saved. -/
  unsaved : Nat := 0

namespace Follower

variable {σ : Type}

/-- Notes that a commit has been taken. -/
def taken (follower : Follower σ) (commit : RawCommit) (state : σ) : Follower σ :=
  ⟨follower.reached.advance commit.actual, state, follower.unsaved + 1⟩

/-- Has the checkpoint saved. -/
def save (follower : Follower σ) (subscriber : Subscriber σ) :
    Except LogError Unit × Follower σ :=
  let (result, state) := subscriber.save follower.reached follower.state
  (result, { follower with state, unsaved := 0 })

/-- Has the checkpoint saved if there is something new in it. -/
def saveNew (follower : Follower σ) (subscriber : Subscriber σ) :
    Except LogError Unit × Follower σ :=
  if follower.unsaved = 0 then (.ok (), follower) else follower.save subscriber

end Follower

end CommitLog
