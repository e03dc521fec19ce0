import CommitLog.Proofs.Queue.Handing
import Mathlib.Logic.Function.Basic
import Mathlib.Logic.Relation

/-!
# A publication that waits, step by step

One producer publishes a batch, and may have to wait for room. Meanwhile consumers poll, register
and are dropped, and the queue may be closed at any moment. Here the publication takes its steps
one at a time. With a ring it looks whether the queue is closed, claims a range, and publishes it.
With mailboxes it takes the list of mailboxes and puts the batch into one after another; at a full
one it looks whether the queue is closed, and either tries again or gives up.

The list of mailboxes is held until the publication has ended. Meanwhile nobody registers, and a
queue that is being closed keeps its mailboxes connected. An operation of somebody else is one step.

What a queue makes of a batch all at once is what its producer comes to if nobody does anything in
the middle: the batch is published, refused, or waits at a certain stage (`leads_publish`).
-/

namespace CommitLog.Queue.Blocking

variable {α : Type}

/-- What the producer does next. -/
inductive Stage (α : Type) where
  /-- Looks whether the queue takes batches of this length at all. -/
  | arriving
  /-- Looks whether the ring is closed, before each attempt to claim a range. -/
  | entering
  /-- Claims a range of the ring, if there is room. -/
  | reserving
  /-- Fills the range that starts here, and publishes it. -/
  | filling (start : Nat)
  /-- Puts the batch into the next mailbox. The first `served` mailboxes hold it. -/
  | handing (served : Nat)
  /-- Looks whether the queue is closed, having found the next mailbox full. -/
  | doubting (served : Nat)
  | returned (result : Except (Rejected α) Unit)

/-- Whether the producer has found the ring open and has not published yet. -/
def Stage.underway : Stage α → Bool
  | reserving | filling _ => true
  | _ => false

/-- A queue, with a producer that publishes one batch. -/
structure Machine (α : Type) where
  queue : Queue α
  batch : List α
  stage : Stage α := .arriving
  /-- The consumers that the batch has come to. -/
  served : List ConsumerId := []
  /-- What each consumer was told so far. -/
  told : ConsumerId → List (Poll α) := fun _ => []
  /-- The consumers that were told that a ring is closed while the batch was on its way. -/
  hasty : List ConsumerId := []

end CommitLog.Queue.Blocking

namespace CommitLog.Queue

variable {α : Type}

/-- Whether a consumer is told that nothing more will come. -/
def Poll.isClosed : Poll α → Bool
  | closed => true
  | _ => false

/-- The value that a consumer is given, if it is given one. -/
def Poll.value? : Poll α → Option α
  | ready value => some value
  | _ => none

/-- The values that a consumer was given. -/
def values (polls : List (Poll α)) : List α := polls.filterMap Poll.value?

@[simp] theorem values_append (polls more : List (Poll α)) :
    values (polls ++ more) = values polls ++ values more := List.filterMap_append

end CommitLog.Queue

namespace CommitLog.Queue.Blocking

variable {α : Type}

/-- A step of the producer: what it finds, and what it leaves of the queue, of its own place, and
of those that have been served. -/
inductive Publishes (batch : List α) :
    Queue α → Stage α → List ConsumerId → Queue α → Stage α → List ConsumerId → Prop where
  | nothing {queue : Queue α} {served : List ConsumerId} (empty : batch = []) :
      Publishes batch queue .arriving served queue (.returned (.ok ())) served
  -- a ring
  | refused {r : Ring α} {served : List ConsumerId} {reason : Error} (ne : batch ≠ [])
      (refusal : r.refusal? batch.length = some reason) :
      Publishes batch (ring r) .arriving served (ring r) (.returned (.error ⟨reason, batch⟩)) served
  | admitted {r : Ring α} {served : List ConsumerId} (ne : batch ≠ [])
      (refusal : r.refusal? batch.length = none) :
      Publishes batch (ring r) .arriving served (ring r) .entering served
  | foundClosed {r : Ring α} {served : List ConsumerId} (isClosed : r.closed = true) :
      Publishes batch (ring r) .entering served
        (ring r) (.returned (.error ⟨.closed, batch⟩)) served
  | foundOpen {r : Ring α} {served : List ConsumerId} (isOpen : r.closed = false) :
      Publishes batch (ring r) .entering served (ring r) .reserving served
  | foundNoRoom {r : Ring α} {served : List ConsumerId}
      (full : r.capacity < r.claimed + batch.length - r.gate) :
      Publishes batch (ring r) .reserving served (ring r) .entering served
  | claimed {r : Ring α} {served : List ConsumerId}
      (room : r.claimed + batch.length - r.gate ≤ r.capacity) :
      Publishes batch (ring r) .reserving served
        (ring { r with claimed := r.claimed + batch.length }) (.filling r.claimed) served
  | published {r : Ring α} {served : List ConsumerId} {start : Nat} :
      Publishes batch (ring r) (.filling start) served
        (ring (r.fillAndPublish start batch)) (.returned (.ok ()))
        (served ++ r.cursors.map Prod.fst)
  -- mailboxes
  | turnedAway {boxes : Mailboxes α} {served : List ConsumerId} (ne : batch ≠ [])
      (idle : boxes.busy = false) (isClosed : boxes.closed = true) :
      Publishes batch (mailboxes boxes) .arriving served
        (mailboxes boxes) (.returned (.error ⟨.closed, batch⟩)) served
  | begun {boxes : Mailboxes α} {served : List ConsumerId} (ne : batch ≠ [])
      (idle : boxes.busy = false) (isOpen : boxes.closed = false) :
      Publishes batch (mailboxes boxes) .arriving served
        (mailboxes { boxes.prune with busy := true }) (.handing 0) served
  /-- The consumer is gone: the last mailbox takes the place of its own. -/
  | skipped {boxes : Mailboxes α} {served : List ConsumerId} {n : Nat}
      (lt : n < boxes.connected.length) (gone : boxes.inbox? boxes.connected[n] = none) :
      Publishes batch (mailboxes boxes) (.handing n) served
        (mailboxes { boxes with connected := Mailboxes.swapRemove boxes.connected n })
        (.handing n) served
  | handed {boxes : Mailboxes α} {served : List ConsumerId} {n : Nat}
      (lt : n < boxes.connected.length) (there : (boxes.inbox? boxes.connected[n]).isSome)
      (room : boxes.isFull boxes.connected[n] = false) :
      Publishes batch (mailboxes boxes) (.handing n) served
        (mailboxes (boxes.push batch boxes.connected[n])) (.handing (n + 1))
        (served ++ [boxes.connected[n]])
  | foundFull {boxes : Mailboxes α} {served : List ConsumerId} {n : Nat}
      (lt : n < boxes.connected.length) (there : (boxes.inbox? boxes.connected[n]).isSome)
      (full : boxes.isFull boxes.connected[n] = true) :
      Publishes batch (mailboxes boxes) (.handing n) served
        (mailboxes boxes) (.doubting n) served
  | persisted {boxes : Mailboxes α} {served : List ConsumerId} {n : Nat}
      (isOpen : boxes.closed = false) :
      Publishes batch (mailboxes boxes) (.doubting n) served
        (mailboxes boxes) (.handing n) served
  /-- The batch is not handed back: some mailboxes may hold it. -/
  | gaveUp {boxes : Mailboxes α} {served : List ConsumerId} {n : Nat}
      (isClosed : boxes.closed = true) :
      Publishes batch (mailboxes boxes) (.doubting n) served
        (mailboxes { boxes with busy := false }) (.returned (.error ⟨.closed, []⟩)) served
  | finished {boxes : Mailboxes α} {served : List ConsumerId} {n : Nat}
      (le : boxes.connected.length ≤ n) :
      Publishes batch (mailboxes boxes) (.handing n) served
        (mailboxes { boxes with busy := false }) (.returned (.ok ())) served

/-- One step of the producer, or one operation of somebody else. -/
inductive Step (machine : Machine α) : Machine α → Prop where
  | publishes {queue : Queue α} {stage : Stage α} {served : List ConsumerId}
      (publishes : Publishes machine.batch machine.queue machine.stage machine.served
        queue stage served) :
      Step machine { machine with queue, stage, served }
  | polls {consumer : ConsumerId} (isConsumer : machine.queue.IsConsumer consumer) :
      Step machine { machine with
        queue := (machine.queue.next consumer).2
        told := Function.update machine.told consumer
          (machine.told consumer ++ [(machine.queue.next consumer).1])
        hasty := if (machine.queue.next consumer).1.isClosed && machine.stage.underway then
          machine.hasty ++ [consumer] else machine.hasty }
  | drops (consumer : ConsumerId) :
      Step machine { machine with queue := machine.queue.unsubscribe consumer }
  | subscribes (idle : machine.queue.isBusy = false) :
      Step machine { machine with queue := machine.queue.subscribe.2 }
  /-- Closing begins: no more batches are taken. -/
  | stops : Step machine { machine with queue := machine.queue.stop }
  /-- Closing ends, once no publication holds the list: mailboxes are disconnected. -/
  | disconnects (isClosed : machine.queue.isClosed = true) (idle : machine.queue.isBusy = false) :
      Step machine { machine with queue := machine.queue.disconnect }

/-- One state of the machine is followed by another. -/
abbrev Leads : Machine α → Machine α → Prop := Relation.ReflTransGen Step

/-! ## Publishing in one go -/

variable {batch : List α} {queue queue' : Queue α} {stage next : Stage α}
  {served served' : List ConsumerId}

/-- Where a producer is when a publication has come so far. -/
def Stage.ofProgress (queue : Queue α) : Progress α → Stage α
  | .published => .returned (.ok ())
  | .rejected rejected => .returned (.error rejected)
  | .waiting rest =>
    match queue with
    | ring _ => .entering
    | mailboxes _ => .handing rest.served

theorem leads_publishes (h : Publishes batch queue stage served queue' next served') :
    Leads { queue, batch, stage, served }
      { queue := queue', batch, stage := next, served := served' } :=
  .single (.publishes h)

/-- An attempt to claim a range, and the publication if it succeeds. -/
theorem leads_resume (r : Ring α) (publication : Publication α) (served : List ConsumerId) :
    ∃ served', Leads { queue := .ring r, batch := publication.batch, stage := .entering, served }
      { queue := .ring (r.resume publication).2, batch := publication.batch,
        stage := .ofProgress (.ring r) (r.resume publication).1, served := served' } := by
  unfold Ring.resume Ring.claim
  by_cases hclosed : r.closed = true
  · rw [if_pos hclosed]
    exact ⟨served, leads_publishes (.foundClosed hclosed)⟩
  · have hopen : Leads { queue := .ring r, batch := publication.batch, stage := .entering, served }
        { queue := .ring r, batch := publication.batch, stage := .reserving, served } :=
      leads_publishes (.foundOpen (eq_false_of_ne_true hclosed))
    rw [if_neg hclosed]
    by_cases hfull : r.capacity < r.claimed + publication.batch.length - r.gate
    · rw [if_pos hfull]
      exact ⟨served, hopen.trans (leads_publishes (.foundNoRoom hfull))⟩
    · rw [if_neg hfull]
      exact ⟨_, (hopen.trans (leads_publishes (.claimed (Nat.le_of_not_lt hfull)))).trans
        (leads_publishes .published)⟩

/-- Mailboxes whose list is held. -/
def held (boxes : Mailboxes α) : Mailboxes α := { boxes with busy := true }

theorem held_push (boxes : Mailboxes α) (batch : List α) (consumer : ConsumerId) :
    (held boxes).push batch consumer = held (boxes.push batch consumer) := by
  have hinbox : (held boxes).inbox? consumer = boxes.inbox? consumer := rfl
  unfold Mailboxes.push
  rw [hinbox]
  cases boxes.inbox? consumer <;> rfl

/-- The batch goes into the mailboxes that are left, as far as there is room. -/
theorem leads_proceed (boxes : Mailboxes α) (publication : Publication α)
    (served : List ConsumerId) : ∃ served',
    Leads
      { queue := .mailboxes (held boxes), batch := publication.batch,
        stage := .handing publication.served, served }
      { queue := .mailboxes (boxes.proceed publication).2, batch := publication.batch,
        stage := .ofProgress (.mailboxes boxes) (boxes.proceed publication).1,
        served := served' } := by
  fun_induction Mailboxes.proceed boxes publication generalizing served with
  | case1 boxes publication hlt consumer hgone ih =>
    obtain ⟨served', hrest⟩ := ih served
    have hskipped := leads_publishes (@Publishes.skipped α publication.batch (held boxes) served
      publication.served hlt (Option.isNone_iff_eq_none.1 hgone))
    exact ⟨served', hskipped.trans hrest⟩
  | case2 boxes publication hlt consumer hthere hroom ih =>
    obtain ⟨served', hrest⟩ := ih (served ++ [consumer])
    have hlive : (boxes.inbox? consumer).isSome := by simpa [Option.isSome_iff_ne_none] using hthere
    have hspace : boxes.isFull consumer = false := by simpa using hroom
    have hhanded := leads_publishes (@Publishes.handed α publication.batch (held boxes) served
      publication.served hlt hlive hspace)
    rw [held_push] at hhanded
    exact ⟨served', hhanded.trans hrest⟩
  | case3 boxes publication hlt consumer hthere hfull hclosed =>
    have hlive : (boxes.inbox? consumer).isSome := by simpa [Option.isSome_iff_ne_none] using hthere
    have hnone : boxes.isFull consumer = true := by simpa using hfull
    have hdoubting := leads_publishes (@Publishes.foundFull α publication.batch (held boxes) served
      publication.served hlt hlive hnone)
    exact ⟨served, hdoubting.trans (leads_publishes (.gaveUp hclosed))⟩
  | case4 boxes publication hlt consumer hthere hfull hopen => exact ⟨served, .refl⟩
  | case5 boxes publication hend =>
    exact ⟨served, leads_publishes (.finished (Nat.le_of_not_lt hend))⟩

/-- **What a queue makes of a batch is a row of steps.** -/
theorem leads_publish (queue : Queue α) (hidle : queue.isBusy = false) (batch : List α) :
    ∃ served, Leads { queue, batch }
      { queue := (queue.publish batch).2, batch,
        stage := .ofProgress queue (queue.publish batch).1, served } := by
  by_cases hbatch : batch = []
  · subst hbatch
    refine ⟨[], ?_⟩
    cases queue <;> exact leads_publishes (.nothing rfl)
  have hsome : ¬batch.isEmpty = true := by simpa using hbatch
  cases queue with
  | ring r =>
    show ∃ served, Leads _
      { queue := .ring (r.publish batch).2, batch,
        stage := .ofProgress (.ring r) (r.publish batch).1, served }
    unfold Ring.publish
    rw [if_neg hsome]
    cases hrefusal : r.refusal? batch.length with
    | some reason => exact ⟨[], leads_publishes (.refused hbatch hrefusal)⟩
    | none =>
      obtain ⟨served, hresumed⟩ := leads_resume r { batch } []
      exact ⟨served, (leads_publishes (.admitted hbatch hrefusal)).trans hresumed⟩
  | mailboxes boxes =>
    have hbusy : ¬boxes.busy = true := by
      rw [show boxes.busy = false from hidle]
      exact Bool.false_ne_true
    show ∃ served, Leads _
      { queue := .mailboxes (boxes.publish batch).2, batch,
        stage := .ofProgress (.mailboxes boxes) (boxes.publish batch).1, served }
    unfold Mailboxes.publish
    rw [if_neg hsome, if_neg hbusy]
    by_cases hclosed : boxes.closed = true
    · rw [if_pos hclosed]
      exact ⟨[], leads_publishes (.turnedAway hbatch hidle hclosed)⟩
    · rw [if_neg hclosed]
      obtain ⟨served, hproceeds⟩ := leads_proceed boxes.prune { batch } []
      exact ⟨served, (leads_publishes (.begun hbatch hidle (eq_false_of_ne_true hclosed))).trans
        hproceeds⟩

end CommitLog.Queue.Blocking
