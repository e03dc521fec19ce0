import CommitLog.Queue
import CommitLog.Replay

/-!
# Hot delivery

A delivery polls the queue of a topic for one subscriber. A round hands on everything that is
there, leaves out commits that the subscriber has seen before, and has the checkpoint saved if
there is something new in it. Between rounds the delivery sleeps until the topic wakes it or it is
cancelled. It ends when the subscriber fails, when it is cancelled, and when the queue is closed
and empty; its consumer is removed then.
-/

namespace CommitLog

/-- A registered consumer that nothing is delivered to yet, and the tails at its registration. -/
structure HotTail where
  topic : String
  consumer : Queue.ConsumerId
  revisions : Revisions
deriving DecidableEq, Repr

/-- The tail as a term. -/
def HotTail.display (tail : HotTail) : String :=
  "HotTail \x7b topic: " ++ Text.quoted tail.topic ++ ", tail: " ++ tail.revisions.display
    ++ " \x7d"

/-- How a delivery has ended. -/
inductive Ending where
  /-- It has stopped, because of an error or without one. -/
  | stopped (error : Option LogError)
  /-- The subscriber has panicked. -/
  | panicked
deriving DecidableEq, Repr

/-- A running or ended delivery of a topic to a subscriber of state `σ`. -/
structure Delivery (σ : Type) where
  topic : String
  consumer : Queue.ConsumerId
  follower : Follower σ
  cancelled : Bool := false
  /-- How often the topic had woken deliveries when the last round began. -/
  heard : Option Nat := none
  ending : Option Ending := none

namespace Delivery

variable {σ : Type}

/-- Begins a delivery at a checkpoint. -/
def start (tail : HotTail) (reached : Revisions) (state : σ) : Delivery σ where
  topic := tail.topic
  consumer := tail.consumer
  follower := ⟨reached, state, 0⟩

/-- The delivery as a term. -/
def display (delivery : Delivery σ) : String :=
  "Subscription \x7b topic: " ++ Text.quoted delivery.topic ++ ", cancelled: "
    ++ toString delivery.cancelled ++ " \x7d"

/-- Whether the delivery has ended. -/
def isFinished (delivery : Delivery σ) : Bool := delivery.ending.isSome

/-- Asks the delivery to stop. -/
def cancel (delivery : Delivery σ) : Delivery σ := { delivery with cancelled := true }

/-- Ends the delivery. -/
def finish (delivery : Delivery σ) (ending : Ending) : Delivery σ :=
  { delivery with ending := some ending }

/-- Whether a round is due: at the beginning, after a wakeup, and after a cancel. -/
def isDue (delivery : Delivery σ) (wakeups : Nat) : Bool :=
  !delivery.isFinished && (delivery.cancelled || delivery.heard != some wakeups)

/-- What a poll of the queue leads to. -/
inductive Turn where
  /-- There may be more. -/
  | more
  /-- Everything that is there has been handed on. -/
  | caughtUp
  /-- Everything has been handed on, and nothing more will come. -/
  | closed
  | ended (ending : Ending)
deriving DecidableEq, Repr

/-- Hands on a commit, unless the subscriber has seen it before. When it is refused, the checkpoint
in front of it is saved; the refusal is reported even if that fails. -/
def handOn (subscriber : Subscriber σ) (commit : RawCommit) (follower : Follower σ) :
    Turn × Follower σ :=
  if follower.reached.covers commit.actual then (.more, follower)
  else
    match subscriber.handle commit follower.state with
    | (.taken, state) => (.more, follower.taken commit state)
    | (.refused error, state) =>
      (.ended (.stopped (some error)), ({ follower with state }.save subscriber).2)
    | (.panicked, state) => (.ended .panicked, { follower with state })

/-- Polls the queue once, and hands on what comes. -/
def poll (subscriber : Subscriber σ) (consumer : Queue.ConsumerId) (queue : Queue RawCommit)
    (follower : Follower σ) : Turn × Queue RawCommit × Follower σ :=
  match queue.next consumer with
  | (.empty, queue) => (.caughtUp, queue, follower)
  | (.closed, queue) => (.closed, queue, follower)
  | (.ready commit, queue) =>
    let (turn, follower) := handOn subscriber commit follower
    (turn, queue, follower)

theorem unread_of_poll_more {subscriber : Subscriber σ} {consumer : Queue.ConsumerId}
    {queue after : Queue RawCommit} {follower later : Follower σ}
    (h : poll subscriber consumer queue follower = (.more, after, later)) :
    (after.unread consumer).length < (queue.unread consumer).length := by
  unfold poll at h
  split at h
  next => simp at h
  next => simp at h
  next commit moved hnext =>
    simp only [Prod.mk.injEq] at h
    obtain ⟨_, rfl, _⟩ := h
    rw [Queue.unread_of_next_ready hnext]
    simp

/-- Polls the queue until it is empty or delivery ends. -/
def drain (subscriber : Subscriber σ) (consumer : Queue.ConsumerId) (queue : Queue RawCommit)
    (follower : Follower σ) : Turn × Queue RawCommit × Follower σ :=
  match _h : poll subscriber consumer queue follower with
  | (.more, after, later) => drain subscriber consumer after later
  | result => result
termination_by (queue.unread consumer).length
decreasing_by exact unread_of_poll_more _h

/-- What is left to do when a round has handed on all it could: the checkpoint is saved if there is
something new in it. -/
def conclude (subscriber : Subscriber σ) (turn : Turn) (follower : Follower σ) :
    Option Ending × Follower σ :=
  match turn with
  | .ended ending => (some ending, follower)
  | turn =>
    match follower.saveNew subscriber with
    | (.error error, follower) => (some (.stopped (some error)), follower)
    | (.ok (), follower) => (if turn = .closed then some (.stopped none) else none, follower)

/-- A round of a delivery. One that has been cancelled hands on nothing more. -/
def round (subscriber : Subscriber σ) (delivery : Delivery σ) (topic : Topic) :
    Delivery σ × Topic :=
  let delivery := { delivery with heard := some topic.wakeups }
  let (turn, queue, follower) :=
    if delivery.cancelled then (Turn.ended (.stopped none), topic.queue, delivery.follower)
    else drain subscriber delivery.consumer topic.queue delivery.follower
  let (ending, follower) := conclude subscriber turn follower
  let queue := if ending.isSome then queue.unsubscribe delivery.consumer else queue
  ({ delivery with follower, ending }, { topic with queue })

end Delivery

end CommitLog
