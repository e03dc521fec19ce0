import CommitLog.Queue.Basic

/-!
# Mailboxes

Every consumer has a mailbox of its own, which holds a bounded number of batches that the consumer
has not begun to read. A publication puts the batch into one mailbox after another and waits at a
full one; mailboxes before it hold the batch already. Publications take turns, so all consumers
get the batches in the same order.

The mailbox of a consumer that is gone is removed when a publication comes across it: the last
mailbox takes its place. Closing disconnects all mailboxes, and a consumer that registers later
gets none.
-/

namespace CommitLog.Queue

/-- The consumer's side of a mailbox. -/
structure Inbox (α : Type) where
  /-- Batches that have not been begun. -/
  pending : List (List α) := []
  /-- What is left of the batch that is being read. -/
  current : List α := []
deriving DecidableEq, Repr

namespace Inbox

variable {α : Type}

/-- The first value of a row of batches, with what is left. -/
def nextOf : List (List α) → Option (α × Inbox α)
  | [] => none
  | [] :: later => nextOf later
  | (value :: rest) :: later => some (value, ⟨later, rest⟩)

/-- The next value, with what is left. -/
def next? (inbox : Inbox α) : Option (α × Inbox α) := nextOf (inbox.current :: inbox.pending)

/-- The values that have not been read. -/
def unread (inbox : Inbox α) : List α := inbox.current ++ inbox.pending.flatten

/-- The inbox with one more batch. -/
def push (inbox : Inbox α) (batch : List α) : Inbox α :=
  { inbox with pending := inbox.pending ++ [batch] }

theorem unread_of_nextOf {rows : List (List α)} {value : α} {inbox : Inbox α}
    (h : nextOf rows = some (value, inbox)) : rows.flatten = value :: inbox.unread := by
  induction rows with
  | nil => simp [nextOf] at h
  | cons row later ih =>
    cases row with
    | nil => simpa [nextOf] using ih h
    | cons first rest =>
      simp only [nextOf, Option.some.injEq, Prod.mk.injEq] at h
      obtain ⟨rfl, rfl⟩ := h
      simp [unread]

theorem unread_of_next? {inbox rest : Inbox α} {value : α}
    (h : inbox.next? = some (value, rest)) : inbox.unread = value :: rest.unread := by
  simpa [unread] using unread_of_nextOf h

end Inbox

/-- Mailboxes of at most `limit` batches each. -/
structure Mailboxes (α : Type) where
  limit : Nat
  limit_pos : 0 < limit
  /-- The connected mailboxes in the order in which a publication comes to them. -/
  connected : List ConsumerId := []
  /-- What every consumer that is not gone has in front of it. -/
  inboxes : List (ConsumerId × Inbox α) := []
  closed : Bool := false
  /-- Whether a publication has begun and waits at a full mailbox. -/
  busy : Bool := false
  /-- How many consumers were ever registered. -/
  registered : Nat := 0
deriving Repr

namespace Mailboxes

variable {α : Type}

/-- No mailbox; each is to hold at least one batch. -/
def ofLimit (limit : Nat) : Mailboxes α where
  limit := max limit 1
  limit_pos := max_one_pos limit

/-- What a consumer that is not gone has in front of it. -/
def inbox? (boxes : Mailboxes α) (consumer : ConsumerId) : Option (Inbox α) :=
  boxes.inboxes.lookup consumer

/-- Puts the inbox of a consumer in place of the one before. -/
def putInbox (consumer : ConsumerId) (inbox : Inbox α) :
    List (ConsumerId × Inbox α) → List (ConsumerId × Inbox α)
  | [] => []
  | (id, old) :: rest =>
    if id = consumer then (id, inbox) :: rest else (id, old) :: putInbox consumer inbox rest

/-! ## Consumers -/

/-- How many consumers that are not gone have a connected mailbox. -/
def consumerCount (boxes : Mailboxes α) : Nat :=
  boxes.connected.countP fun consumer => (boxes.inbox? consumer).isSome

/-- Registers a consumer. After closing it gets no mailbox. -/
def subscribe (boxes : Mailboxes α) : ConsumerId × Mailboxes α :=
  let consumer := boxes.registered
  (consumer,
    { boxes with
      connected := if boxes.closed then boxes.connected else boxes.connected ++ [consumer]
      inboxes := boxes.inboxes ++ [(consumer, {})]
      registered := consumer + 1 })

/-- Takes a consumer away. -/
def unsubscribe (boxes : Mailboxes α) (consumer : ConsumerId) : Mailboxes α :=
  { boxes with inboxes := boxes.inboxes.filter fun (id, _) => id != consumer }

/-- The next value for a consumer. One without a connected mailbox has nothing to come behind
what it holds. -/
def next (boxes : Mailboxes α) (consumer : ConsumerId) : Poll α × Mailboxes α :=
  match (boxes.inbox? consumer).bind Inbox.next? with
  | some (value, inbox) =>
    (.ready value, { boxes with inboxes := putInbox consumer inbox boxes.inboxes })
  | none => (if boxes.connected.contains consumer then .empty else .closed, boxes)

/-- The values that a consumer has not seen yet. -/
def unread (boxes : Mailboxes α) (consumer : ConsumerId) : List α :=
  match boxes.inbox? consumer with
  | some inbox => inbox.unread
  | none => []

theorem lookup_putInbox {consumer : ConsumerId} {inbox old : Inbox α}
    {inboxes : List (ConsumerId × Inbox α)} (h : inboxes.lookup consumer = some old) :
    (putInbox consumer inbox inboxes).lookup consumer = some inbox := by
  induction inboxes with
  | nil => simp at h
  | cons head rest ih =>
    obtain ⟨id, first⟩ := head
    by_cases hid : id = consumer
    · subst hid
      simp [putInbox]
    · have hne : (consumer == id) = false := by simpa using Ne.symm hid
      simp only [List.lookup_cons, hne] at h
      simp only [putInbox, hid, if_false, List.lookup_cons, hne]
      exact ih h

/-- Reading a value takes it off the front of what the consumer has not seen. -/
theorem unread_of_next_ready {boxes after : Mailboxes α} {consumer : ConsumerId} {value : α}
    (h : boxes.next consumer = (.ready value, after)) :
    boxes.unread consumer = value :: after.unread consumer := by
  unfold next at h
  split at h
  next found rest hfound =>
    simp only [Prod.mk.injEq, Poll.ready.injEq] at h
    obtain ⟨rfl, rfl⟩ := h
    obtain ⟨inbox, hinbox, hnext⟩ := Option.bind_eq_some_iff.1 hfound
    simp only [unread, hinbox]
    simp only [inbox?] at hinbox ⊢
    rw [lookup_putInbox hinbox]
    exact Inbox.unread_of_next? hnext
  next => split at h <;> simp at h

/-! ## Producers -/

/-- Without the mailboxes of consumers that are gone. -/
def prune (boxes : Mailboxes α) : Mailboxes α :=
  { boxes with
    connected := boxes.connected.filter fun consumer => (boxes.inbox? consumer).isSome }

/-- Whether a mailbox has no room for a batch. -/
def isFull (boxes : Mailboxes α) (consumer : ConsumerId) : Bool :=
  match boxes.inbox? consumer with
  | some inbox => boxes.limit ≤ inbox.pending.length
  | none => false

/-- Puts a batch into the mailbox of a consumer. -/
def push (boxes : Mailboxes α) (batch : List α) (consumer : ConsumerId) : Mailboxes α :=
  match boxes.inbox? consumer with
  | some inbox =>
    { boxes with inboxes := putInbox consumer (inbox.push batch) boxes.inboxes }
  | none => boxes

/-- Publishes a batch if there is room in every mailbox. -/
def tryPublish (boxes : Mailboxes α) (batch : List α) : Except (Rejected α) (Mailboxes α) :=
  if batch.isEmpty then .ok boxes
  else if boxes.closed then .error ⟨.closed, batch⟩
  else
    let live := boxes.prune
    if live.connected.any live.isFull then .error ⟨.full, batch⟩
    else .ok (live.connected.foldl (fun boxes consumer => boxes.push batch consumer) live)

/-- The list without the item at an index, the last item in its place. -/
def swapRemove (xs : List ConsumerId) (index : Nat) : List ConsumerId :=
  match xs.getLast? with
  | none => xs
  | some last => (xs.set index last).dropLast

theorem length_swapRemove (xs : List ConsumerId) (index : Nat) :
    (swapRemove xs index).length = xs.length - 1 := by
  cases xs with
  | nil => rfl
  | cons x rest => simp [swapRemove, List.getLast?_cons]

@[simp] theorem push_connected (boxes : Mailboxes α) (batch : List α) (consumer : ConsumerId) :
    (boxes.push batch consumer).connected = boxes.connected := by
  unfold push
  split <;> rfl

/-- Goes on with a publication that has begun from mailbox to mailbox, as far as there is room. A
publication that meets a full mailbox after closing gives up; what it has put into others cannot be
taken back. -/
def proceed (boxes : Mailboxes α) (publication : Publication α) : Progress α × Mailboxes α :=
  if h : publication.served < boxes.connected.length then
    let consumer := boxes.connected[publication.served]
    if (boxes.inbox? consumer).isNone then
      proceed { boxes with connected := swapRemove boxes.connected publication.served } publication
    else if !boxes.isFull consumer then
      proceed (boxes.push publication.batch consumer)
        { publication with served := publication.served + 1 }
    else if boxes.closed then (.rejected ⟨.closed, []⟩, { boxes with busy := false })
    else (.waiting publication, { boxes with busy := true })
  else (.published, { boxes with busy := false })
termination_by boxes.connected.length - publication.served
decreasing_by
  · simp only [length_swapRemove]
    omega
  · simp only [push_connected]
    omega

/-- Publishes a batch, or waits: for its turn, or until there is room for it. -/
def publish (boxes : Mailboxes α) (batch : List α) : Progress α × Mailboxes α :=
  if batch.isEmpty then (.published, boxes)
  else if boxes.busy then (.waiting { batch, inLine := true }, boxes)
  else if boxes.closed then (.rejected ⟨.closed, batch⟩, boxes)
  else boxes.prune.proceed { batch }

/-- Goes on with a publication that waits. -/
def resume (boxes : Mailboxes α) (publication : Publication α) : Progress α × Mailboxes α :=
  if publication.inLine then boxes.publish publication.batch else boxes.proceed publication

/-- Takes no more batches. A publication that waits is to give up before the mailboxes are
disconnected. -/
def stop (boxes : Mailboxes α) : Mailboxes α := { boxes with closed := true }

/-- Disconnects all mailboxes. Consumers read what they hold. -/
def disconnect (boxes : Mailboxes α) : Mailboxes α := { boxes with connected := [] }

/-- Takes no more batches and disconnects all mailboxes. -/
def close (boxes : Mailboxes α) : Mailboxes α := boxes.stop.disconnect

end Mailboxes

end CommitLog.Queue
