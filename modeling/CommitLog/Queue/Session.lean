import CommitLog.Named
import CommitLog.Queue.Transaction

/-!
# Sessions with a queue

A session is a program that uses one queue. Its consumers and transactions have names, and so have
publications that go on in the background while the program does something else. A step has no
result when a name leads to nothing, and when it would wait for ever.

Between two steps publications in the background go on, and whatever waits for room does so as soon
as there is some. Whether their values are then in place before the next step is a matter of time,
and said by whoever runs the session: a program may get ahead of a batch, which is in place then when
a step waits for it.
-/

namespace CommitLog.Queue

/-- A publication in the background. -/
inductive Job (α : Type) where
  /-- It waits for room, or has ended. -/
  | handing (progress : Progress α)
  /-- It has claimed the places from `start` on in a ring, and fills them in. -/
  | filling (start : Nat) (batch : List α)

/-- The state of a program that uses a queue. -/
structure Session (α : Type) where
  queue : Queue α
  consumers : Named ConsumerId := []
  transactions : Named (Transaction α) := []
  /-- Publications that go on in the background. -/
  jobs : Named (Job α) := []

/-- How a publication has ended, if it has. -/
def Progress.ended? {α : Type} : Progress α → Option (Except (Rejected α) Unit)
  | .published => some (.ok ())
  | .rejected refusal => some (.error refusal)
  | .waiting _ => none

namespace Job

variable {α : Type}

/-- Goes on with a publication that waits for room. If the program gets ahead of it in a ring, it
comes to claim its places only. -/
def resume (overtaken : Bool) (queue : Queue α) (publication : Publication α) : Job α × Queue α :=
  match queue, overtaken with
  | .ring r, true =>
    match r.claim publication.batch.length with
    | .ok (start, claimed) => (.filling start publication.batch, .ring claimed)
    | .error .full => (.handing (.waiting publication), queue)
    | .error reason => (.handing (.rejected ⟨reason, publication.batch⟩), queue)
  | _, _ =>
    let (progress, queue) := queue.resume publication
    (.handing progress, queue)

/-- The places that are being filled in, and with what. -/
def filling? : Job α → Option (Nat × List α)
  | filling start batch => some (start, batch)
  | handing _ => none

/-- The publication when its values are in place. -/
def inPlace : Job α → Job α
  | filling _ _ => handing .published
  | handing progress => handing progress

/-- How the publication has ended, if it has. -/
def ended? : Job α → Option (Except (Rejected α) Unit)
  | filling _ _ => none
  | handing progress => progress.ended?

end Job

namespace Session

variable {α β : Type}

/-- A step of a session. -/
abbrev Step (α β : Type) := StateT (Session α) Option β

/-- What a name leads to. -/
def find (things : Named β) (name : String) : Step α β :=
  match things.lookup name with
  | some thing => return thing
  | none => failure

/-- Lets the publications in the background go on, the earliest first. The program gets ahead of the
batches that are named by `overtakes`. -/
def settle (overtakes : List α → Bool) (session : Session α) : Session α :=
  session.jobs.foldr (fun (name, job) session =>
    match job with
    | .handing (.waiting publication) =>
      let (resumed, queue) :=
        Job.resume (overtakes publication.batch) session.queue publication
      { session with
        queue
        jobs := session.jobs.map fun job => if job.1 = name then (name, resumed) else job }
    | _ => session) session

/-- The session when all values are in place that were being filled in. Places that were claimed
earlier are published earlier. -/
def caughtUp (session : Session α) : Session α :=
  match session.queue with
  | .ring r =>
    let fillings := (session.jobs.filterMap fun job => job.2.filling?).mergeSort
      fun one other => one.1 ≤ other.1
    { session with
      queue := .ring (fillings.foldl (fun r (start, batch) => r.fillAndPublish start batch) r)
      jobs := session.jobs.mapAll Job.inPlace }
  | .mailboxes _ => session

/-- Waits for the values that are being filled in. -/
def catchUp : Step α Unit := modify caughtUp

/-- Does something to the queue that has an answer. -/
def onQueue (act : Queue α → β × Queue α) : Step α β :=
  modifyGet fun session =>
    let (answer, queue) := act session.queue
    (answer, { session with queue })

/-! ## Consumers -/

/-- Removes the consumer of a name, if there is one. -/
def release (session : Session α) (name : String) : Session α :=
  match session.consumers.lookup name with
  | some consumer => { session with queue := session.queue.unsubscribe consumer }
  | none => session

/-- Registers a consumer under a name; one that had the name is removed then. -/
def subscribe (name : String) : Step α Nat :=
  modifyGet fun session =>
    let (consumer, queue) := session.queue.subscribe
    let session := { session with queue }.release name
    (session.queue.consumerCount,
      { session with consumers := session.consumers.put name consumer })

/-- Removes the consumer of a name, if there is one. -/
def unsubscribe (name : String) : Step α Nat :=
  modifyGet fun session =>
    let session := session.release name
    (session.queue.consumerCount, { session with consumers := session.consumers.drop name })

/-- Waits for the values that are being filled in, unless the queue is closed: a consumer that finds
nothing does not wait for any then. -/
def awaitValues : Step α Unit :=
  modify fun session => if session.queue.isClosed then session else session.caughtUp

/-- The next value for a consumer. -/
def next (name : String) : Step α (Poll α) := do
  awaitValues
  let consumer ← find (← get).consumers name
  onQueue fun queue => queue.next consumer

/-- Everything that a consumer is told until there is no value. -/
def pollAll (consumer : ConsumerId) (queue : Queue α) : List (Poll α) × Queue α :=
  match _h : queue.next consumer with
  | (.ready value, after) =>
    let (later, queue) := pollAll consumer after
    (.ready value :: later, queue)
  | (poll, after) => ([poll], after)
termination_by (queue.unread consumer).length
decreasing_by
  rw [unread_of_next_ready _h]
  simp

/-- Reads until there is no value. -/
def drain (name : String) : Step α (List (Poll α)) := do
  awaitValues
  let consumer ← find (← get).consumers name
  onQueue (pollAll consumer)

/-! ## Publishing -/

/-- Publishes a batch, which has room or is refused. -/
def publish (batch : List α) : Step α (Except (Rejected α) Unit) := do
  catchUp
  let progress ← onQueue fun queue => queue.publish batch
  liftM progress.ended?

/-- Keeps the queue that has taken a batch. -/
def keep : Except (Rejected α) (Queue α) → Step α (Except (Rejected α) Unit)
  | .ok queue => do
    modify fun session => { session with queue }
    return .ok ()
  | .error rejected => return .error rejected

/-- Publishes a batch if there is room for it. -/
def tryPublish (batch : List α) : Step α (Except (Rejected α) Unit) := do
  catchUp
  keep ((← get).queue.tryPublish batch)

/-- Publishes a batch in the background. -/
def publishLater (name : String) (batch : List α) : Step α Unit := do
  catchUp
  let progress ← onQueue fun queue => queue.publish batch
  modify fun session => { session with jobs := session.jobs.put name (.handing progress) }

/-- How a publication in the background has ended. -/
def join (name : String) : Step α (Except (Rejected α) Unit) := do
  catchUp
  let job ← find (← get).jobs name
  modify fun session => { session with jobs := session.jobs.drop name }
  liftM job.ended?

/-! ## Transactions -/

/-- Begins a transaction under a name. -/
def begin (name : String) (n : Nat) : Step α (Except Error Unit) := do
  match Transaction.begin (← get).queue n with
  | .ok tx =>
    modify fun session => { session with transactions := session.transactions.put name tx }
    return .ok ()
  | .error e => return .error e

/-- Adds a value to a transaction, which comes back as it is then. -/
def add (name : String) (value : α) : Step α (Except Error Unit × Transaction α) := do
  let tx ← find (← get).transactions name
  match tx.add value with
  | .ok tx =>
    modify fun session => { session with transactions := session.transactions.put name tx }
    return (.ok (), tx)
  | .error e => return (.error e, tx)

/-- Takes a transaction from its name. -/
def takeTransaction (name : String) : Step α (Transaction α) := do
  let tx ← find (← get).transactions name
  modify fun session => { session with transactions := session.transactions.drop name }
  return tx

/-- Publishes a transaction, which has room or is refused. -/
def commit (name : String) : Step α (Except (Rejected α) Unit) := do
  catchUp
  let tx ← takeTransaction name
  let progress ← onQueue tx.commit
  liftM progress.ended?

/-- Publishes a transaction if there is room for it. -/
def tryCommit (name : String) : Step α (Except (Rejected α) Unit) := do
  catchUp
  let tx ← takeTransaction name
  keep (tx.tryCommit (← get).queue)

/-- Drops a transaction. -/
def discard (name : String) : Step α Unit :=
  modify fun session => { session with transactions := session.transactions.drop name }

/-- Closes the queue. Publications in the background give up first. -/
def close : Step α Unit :=
  modify fun session =>
    let session := settle (fun _ => false) { session with queue := session.queue.stop }
    { session with queue := session.queue.disconnect }

end Session

end CommitLog.Queue
