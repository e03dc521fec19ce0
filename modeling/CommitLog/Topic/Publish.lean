import CommitLog.Topic

/-!
# Publishing commits

Commits that have been written go to live consumers in batches of at most the capacity of the
queue. A batch that finds no room waits, and the batches behind it wait with it. A batch that is
refused is lost to live consumers, and so is everything behind it: the commits stay where they
are, in the files.
-/

namespace CommitLog.Topic

/-- Cuts a list into pieces of `size` items, or of one item; the last may be shorter. -/
def pieces {α : Type} (size : Nat) : List α → List (List α)
  | [] => []
  | x :: rest => (x :: rest.take (size - 1)) :: pieces size (rest.drop (size - 1))
termination_by xs => xs.length
decreasing_by
  simp only [List.length_drop, List.length_cons]
  omega

/-- Batches on their way to the consumers: the first is waiting for room. -/
structure Backlog where
  publication : Queue.Publication RawCommit
  later : List (List RawCommit)
deriving DecidableEq, Repr

/-- Hands one batch to the queue as a transaction. -/
def publishBatch (queue : Queue RawCommit) (batch : List RawCommit) :
    Queue.Progress RawCommit × Queue RawCommit :=
  match Queue.Transaction.ofBatch queue batch with
  | .error reason => (.rejected ⟨reason, batch⟩, queue)
  | .ok tx => tx.commit queue

/-- Hands batches to the queue one after another, as far as there is room, and wakes deliveries
after each. -/
def publishBatches : List (List RawCommit) → Topic → Option Backlog × Topic
  | [], topic => (none, topic)
  | batch :: later, topic =>
    match publishBatch topic.queue batch with
    | (.published, queue) => publishBatches later { topic with queue }.wake
    | (.rejected _, queue) => (none, { topic with queue })
    | (.waiting publication, queue) => (some ⟨publication, later⟩, { topic with queue })

/-- Hands commits to live consumers. What is left has to wait for room. -/
def publish (topic : Topic) (commits : List RawCommit) : Option Backlog × Topic :=
  publishBatches (pieces (topic.queue.capacity?.getD commits.length) commits) topic

/-- Goes on with batches that had to wait. -/
def resumePublishing (topic : Topic) (backlog : Backlog) : Option Backlog × Topic :=
  match topic.queue.resume backlog.publication with
  | (.published, queue) => publishBatches backlog.later { topic with queue }.wake
  | (.rejected _, queue) => (none, { topic with queue })
  | (.waiting publication, queue) => (some { backlog with publication }, { topic with queue })

end CommitLog.Topic
