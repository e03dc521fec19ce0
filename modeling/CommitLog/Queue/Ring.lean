import CommitLog.Queue.Basic

/-!
# Ring

A ring of slots for all consumers. Values are numbered in the order of their publication, and the
value of number `n` lies in slot `n` modulo the capacity. A producer claims a range of numbers,
fills the slots and moves `published` to the end of the range; a consumer reads whatever lies
before `published` and moves its own cursor.

A slot may be filled again when every cursor is past the value in it. The gate is the smallest of
all cursors and `published`: a claim up to `stop` is granted if `stop` is at most the capacity
away from the gate.
-/

namespace CommitLog.Queue

/-- A ring of slots with one cursor for each consumer. -/
structure Ring (α : Type) where
  slots : Array (Option α)
  slots_pos : 0 < slots.size
  /-- The end of the last range that a producer has claimed. -/
  claimed : Nat := 0
  /-- The end of what consumers may read. -/
  published : Nat := 0
  /-- Of every consumer the number of the value that it reads next. -/
  cursors : List (ConsumerId × Nat) := []
  closed : Bool := false
  /-- How many consumers were ever registered. -/
  registered : Nat := 0
deriving Repr

namespace Ring

variable {α : Type}

theorem size_emptySlots_pos (α : Type) (capacity : Nat) :
    0 < (Array.replicate (max capacity 1) (none : Option α)).size := by
  rw [Array.size_replicate]
  exact max_one_pos capacity

/-- An empty ring of at least one slot. -/
def ofCapacity (capacity : Nat) : Ring α where
  slots := Array.replicate (max capacity 1) none
  slots_pos := size_emptySlots_pos α capacity

/-- How many values the ring holds. -/
def capacity (ring : Ring α) : Nat := ring.slots.size

/-- The number below which no value is needed any more. -/
def gate (ring : Ring α) : Nat :=
  (ring.cursors.map Prod.snd).foldl min ring.published

/-! ## Consumers -/

/-- How many consumers are registered. -/
def consumerCount (ring : Ring α) : Nat := ring.cursors.length

/-- Registers a consumer behind everything that is published. -/
def subscribe (ring : Ring α) : ConsumerId × Ring α :=
  (ring.registered,
    { ring with
      cursors := ring.cursors ++ [(ring.registered, ring.published)]
      registered := ring.registered + 1 })

/-- Removes a consumer. -/
def unsubscribe (ring : Ring α) (consumer : ConsumerId) : Ring α :=
  { ring with cursors := ring.cursors.filter fun (id, _) => id != consumer }

/-- The value of a number, if its slot was ever filled. -/
def value? (ring : Ring α) (number : Nat) : Option α :=
  (ring.slots[number % ring.capacity]?).join

/-- Puts the cursor of a consumer behind the value that it has read. -/
def advanceCursor (consumer : ConsumerId) : List (ConsumerId × Nat) → List (ConsumerId × Nat)
  | [] => []
  | (id, cursor) :: rest =>
    if id = consumer then (id, cursor + 1) :: rest
    else (id, cursor) :: advanceCursor consumer rest

/-- The next value for a consumer. One that is not registered has nothing to come. -/
def next (ring : Ring α) (consumer : ConsumerId) : Poll α × Ring α :=
  match ring.cursors.lookup consumer with
  | none => (.closed, ring)
  | some cursor =>
    if ring.published ≤ cursor then (if ring.closed then .closed else .empty, ring)
    else
      let moved := { ring with cursors := advanceCursor consumer ring.cursors }
      match ring.value? cursor with
      | some value => (.ready value, moved)
      | none => (.empty, moved)

/-- The values that a consumer has not seen yet. -/
def unread (ring : Ring α) (consumer : ConsumerId) : List α :=
  match ring.cursors.lookup consumer with
  | none => []
  | some cursor => (List.range' cursor (ring.published - cursor)).filterMap ring.value?

theorem lookup_advanceCursor {consumer : ConsumerId} {cursors : List (ConsumerId × Nat)}
    {cursor : Nat} (h : cursors.lookup consumer = some cursor) :
    (advanceCursor consumer cursors).lookup consumer = some (cursor + 1) := by
  induction cursors with
  | nil => simp at h
  | cons head rest ih =>
    obtain ⟨id, c⟩ := head
    by_cases hid : id = consumer
    · subst hid
      simp only [List.lookup_cons, beq_self_eq_true, Option.some.injEq] at h
      simp [advanceCursor, h]
    · have hne : (consumer == id) = false := by simpa using Ne.symm hid
      simp only [List.lookup_cons, hne] at h
      simp only [advanceCursor, hid, if_false, List.lookup_cons, hne]
      exact ih h

/-- Reading a value takes it off the front of what the consumer has not seen. -/
theorem unread_of_next_ready {ring moved : Ring α} {consumer : ConsumerId} {value : α}
    (h : ring.next consumer = (.ready value, moved)) :
    ring.unread consumer = value :: moved.unread consumer := by
  unfold next at h
  split at h
  next => simp at h
  next cursor hcursor =>
    split at h
    next => split at h <;> simp at h
    next hlt =>
      split at h
      next found hfound =>
        simp only [Prod.mk.injEq, Poll.ready.injEq] at h
        obtain ⟨rfl, rfl⟩ := h
        have hsub : ring.published - cursor = ring.published - (cursor + 1) + 1 := by omega
        simp only [unread, hcursor, lookup_advanceCursor hcursor]
        rw [hsub, List.range'_succ, List.filterMap_cons, hfound]
        rfl
      next => simp at h

/-! ## Producers -/

/-- Why a batch of a length is refused before room is looked for. -/
def refusal? (ring : Ring α) (length : Nat) : Option Error :=
  if ring.closed then some .closed
  else if ring.capacity < length then some (.batchTooLarge length ring.capacity)
  else none

/-- Grants a range of `length` numbers, if the slots are free. -/
def claim (ring : Ring α) (length : Nat) : Except Error (Nat × Ring α) :=
  if ring.closed then .error .closed
  else if ring.capacity < ring.claimed + length - ring.gate then .error .full
  else .ok (ring.claimed, { ring with claimed := ring.claimed + length })

/-- Fills slots from a number on. -/
def fill (slots : Array (Option α)) (number : Nat) : List α → Array (Option α)
  | [] => slots
  | value :: later =>
    fill (slots.setIfInBounds (number % slots.size) (some value)) (number + 1) later

theorem size_fill (slots : Array (Option α)) (number : Nat) (batch : List α) :
    (fill slots number batch).size = slots.size := by
  induction batch generalizing slots number with
  | nil => rfl
  | cons value later ih => rw [fill, ih, Array.size_setIfInBounds]

/-- Fills the range from `start` on with a batch and publishes it. -/
def fillAndPublish (ring : Ring α) (start : Nat) (batch : List α) : Ring α :=
  { ring with
    slots := fill ring.slots start batch
    slots_pos := by rw [size_fill]; exact ring.slots_pos
    published := start + batch.length }

/-- Publishes a batch if there is room for it. -/
def tryPublish (ring : Ring α) (batch : List α) : Except (Rejected α) (Ring α) :=
  if batch.isEmpty then .ok ring
  else
    match ring.refusal? batch.length with
    | some reason => .error ⟨reason, batch⟩
    | none =>
      match ring.claim batch.length with
      | .error reason => .error ⟨reason, batch⟩
      | .ok (start, claimed) => .ok (claimed.fillAndPublish start batch)

/-- Goes on with a publication that may be waiting for room. -/
def resume (ring : Ring α) (publication : Publication α) : Progress α × Ring α :=
  match ring.claim publication.batch.length with
  | .ok (start, claimed) => (.published, claimed.fillAndPublish start publication.batch)
  | .error .full => (.waiting publication, ring)
  | .error reason => (.rejected ⟨reason, publication.batch⟩, ring)

/-- Publishes a batch, or waits until there is room for it. -/
def publish (ring : Ring α) (batch : List α) : Progress α × Ring α :=
  if batch.isEmpty then (.published, ring)
  else
    match ring.refusal? batch.length with
    | some reason => (.rejected ⟨reason, batch⟩, ring)
    | none => ring.resume { batch }

/-- Takes no more values. Consumers read what is published. -/
def close (ring : Ring α) : Ring α := { ring with closed := true }

end Ring

end CommitLog.Queue
