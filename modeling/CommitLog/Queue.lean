import CommitLog.Config
import CommitLog.Queue.Mailboxes
import CommitLog.Queue.Ring

/-!
# Queues

The queue that a topic hands its commits to live consumers with: a ring or mailboxes, as the
settings say.
-/

namespace CommitLog

/-- A queue of either backend. -/
inductive Queue (α : Type) where
  | ring (ring : Queue.Ring α)
  | mailboxes (boxes : Queue.Mailboxes α)
deriving Repr

namespace Queue

variable {α : Type}

/-- The empty queue that the settings ask for. -/
def ofFanout : Fanout → Queue α
  | .ring capacity => .ring (.ofCapacity capacity)
  | .mailbox maxPending => .mailboxes (.ofLimit maxPending)

/-- How many values fit, if there is a bound. -/
def capacity? : Queue α → Option Nat
  | ring r => some r.capacity
  | mailboxes _ => none

/-- How many batches a consumer may leave waiting, if they are counted. -/
def maxPending? : Queue α → Option Nat
  | ring _ => none
  | mailboxes boxes => some boxes.limit

/-- How many consumers are registered. -/
def consumerCount : Queue α → Nat
  | ring r => r.consumerCount
  | mailboxes boxes => boxes.consumerCount

/-- Whether no more values are taken. -/
def isClosed : Queue α → Bool
  | ring r => r.closed
  | mailboxes boxes => boxes.closed

/-- Registers a consumer, which sees what is published from now on. -/
def subscribe : Queue α → ConsumerId × Queue α
  | ring r => (r.subscribe.1, ring r.subscribe.2)
  | mailboxes boxes => (boxes.subscribe.1, mailboxes boxes.subscribe.2)

/-- Removes a consumer. -/
def unsubscribe (queue : Queue α) (consumer : ConsumerId) : Queue α :=
  match queue with
  | ring r => ring (r.unsubscribe consumer)
  | mailboxes boxes => mailboxes (boxes.unsubscribe consumer)

/-- The next value for a consumer. -/
def next (queue : Queue α) (consumer : ConsumerId) : Poll α × Queue α :=
  match queue with
  | ring r => ((r.next consumer).1, ring (r.next consumer).2)
  | mailboxes boxes => ((boxes.next consumer).1, mailboxes (boxes.next consumer).2)

/-- The values that a consumer has not seen yet. -/
def unread (queue : Queue α) (consumer : ConsumerId) : List α :=
  match queue with
  | ring r => r.unread consumer
  | mailboxes boxes => boxes.unread consumer

/-- Reading a value takes it off the front of what the consumer has not seen. -/
theorem unread_of_next_ready {queue after : Queue α} {consumer : ConsumerId} {value : α}
    (h : queue.next consumer = (.ready value, after)) :
    queue.unread consumer = value :: after.unread consumer := by
  cases queue with
  | ring r =>
    simp only [next, Prod.mk.injEq] at h
    obtain ⟨hpoll, rfl⟩ := h
    exact Ring.unread_of_next_ready (Prod.ext hpoll rfl)
  | mailboxes boxes =>
    simp only [next, Prod.mk.injEq] at h
    obtain ⟨hpoll, rfl⟩ := h
    exact Mailboxes.unread_of_next_ready (Prod.ext hpoll rfl)

/-- Publishes a batch if there is room for it. -/
def tryPublish (queue : Queue α) (batch : List α) : Except (Rejected α) (Queue α) :=
  match queue with
  | ring r => ring <$> r.tryPublish batch
  | mailboxes boxes => mailboxes <$> boxes.tryPublish batch

/-- Publishes a batch, or waits until there is room for it. -/
def publish (queue : Queue α) (batch : List α) : Progress α × Queue α :=
  match queue with
  | ring r => ((r.publish batch).1, ring (r.publish batch).2)
  | mailboxes boxes => ((boxes.publish batch).1, mailboxes (boxes.publish batch).2)

/-- Goes on with a publication that waits. -/
def resume (queue : Queue α) (publication : Publication α) : Progress α × Queue α :=
  match queue with
  | ring r => ((r.resume publication).1, ring (r.resume publication).2)
  | mailboxes boxes => ((boxes.resume publication).1, mailboxes (boxes.resume publication).2)

/-- Takes no more values. Publications that wait are to give up before `disconnect`. -/
def stop : Queue α → Queue α
  | ring r => ring r.close
  | mailboxes boxes => mailboxes boxes.stop

/-- Lets consumers come to the end of what is published. -/
def disconnect : Queue α → Queue α
  | ring r => ring r
  | mailboxes boxes => mailboxes boxes.disconnect

/-- Closes a queue at which no publication waits. -/
def close (queue : Queue α) : Queue α := queue.stop.disconnect

end Queue

end CommitLog
