import CommitLog.Proofs.Queue.Contention.Machine
import CommitLog.Proofs.Queue.Ring
import Mathlib.Data.List.Nodup

/-!
# What the parties of a ring rely on

Between two accesses a party relies on what it saw before: a producer on the gate that it computed
and on the range that it claimed, a consumer on the number that it found to be published. `Knows`
says for each stage what holds of the ring as long as the party is there, however often the others
have written to it in between.

The gate is computed from values of different moments. All that matters is that it is no larger
than any of the numbers it was computed from: these only grow, and a cursor that is added later
starts at what is published by then. `Memory` has what holds of the ring alone, and `Agree` what
two parties must not do to each other.

For each write there is one lemma on the ring, and one that says that the others still know what
they knew.
-/

namespace CommitLog.Queue.Contention

open CommitLog.Queue.Ring (mod_ne_of_lt)

variable {α : Type} {ring : Ring α} {granted : List (List α)} {party : Party} {stage : Stage α}
  {start number gate cursor published : Nat} {batch : List α} {consumer : ConsumerId}

/-! ## Cursors in a list -/

theorem mem_storeCursor {cursors : List (ConsumerId × Nat)} {entry : ConsumerId × Nat}
    (h : entry ∈ storeCursor consumer cursor cursors) :
    entry ∈ cursors ∨ entry = (consumer, cursor) := by
  induction cursors with
  | nil => cases h
  | cons head rest ih =>
    obtain ⟨id, first⟩ := head
    unfold storeCursor at h
    split at h
    next hid =>
      subst hid
      rcases List.mem_cons.1 h with rfl | h
      · exact .inr rfl
      · exact .inl (List.mem_cons_of_mem _ h)
    next =>
      rcases List.mem_cons.1 h with rfl | h
      · exact .inl List.mem_cons_self
      · exact (ih h).imp_left (List.mem_cons_of_mem _)

theorem mem_storeCursor_of_ne {cursors : List (ConsumerId × Nat)} {entry : ConsumerId × Nat}
    (h : entry ∈ cursors) (hne : entry.1 ≠ consumer) :
    entry ∈ storeCursor consumer cursor cursors := by
  induction cursors with
  | nil => cases h
  | cons head rest ih =>
    obtain ⟨id, first⟩ := head
    unfold storeCursor
    split
    next hid =>
      rcases List.mem_cons.1 h with rfl | h
      · exact absurd hid hne
      · exact List.mem_cons_of_mem _ h
    next =>
      rcases List.mem_cons.1 h with rfl | h
      · exact List.mem_cons_self
      · exact List.mem_cons_of_mem _ (ih h)

theorem map_fst_storeCursor (cursors : List (ConsumerId × Nat)) :
    (storeCursor consumer cursor cursors).map Prod.fst = cursors.map Prod.fst := by
  induction cursors with
  | nil => rfl
  | cons head rest ih =>
    obtain ⟨id, first⟩ := head
    unfold storeCursor
    split
    next => rfl
    next => rw [List.map_cons, List.map_cons, ih]

/-! ## Values in slots -/

theorem value?_write (ring : Ring α) (number : Nat) (value : α) :
    (write ring number value).value? number = some value := by
  have hlt := Nat.mod_lt number ring.slots_pos
  simp [write, Ring.value?, Ring.capacity, hlt]

theorem value?_write_of_ne (value : α) {m n : Nat} (h : m % ring.capacity ≠ n % ring.capacity) :
    (write ring m value).value? n = ring.value? n := by
  unfold Ring.capacity at h
  simp only [write, Ring.value?, Ring.capacity, Array.size_setIfInBounds,
    Array.getElem?_setIfInBounds, if_neg h]

@[simp]
theorem capacity_write (ring : Ring α) (number : Nat) (value : α) :
    (write ring number value).capacity = ring.capacity := Array.size_setIfInBounds

/-! ## What holds of the ring -/

/-- What the ring tells of the batches that were granted a range. -/
structure Memory (ring : Ring α) (granted : List (List α)) : Prop where
  claimed : ring.claimed = granted.flatten.length
  /-- What is published ends where a range ends. -/
  published : ∃ before after, granted = before ++ after ∧
    ring.published = before.flatten.length
  room : ring.claimed ≤ ring.published + ring.capacity
  /-- No cursor is ahead of what is published, or out of reach behind what is claimed. -/
  cursors : ∀ entry ∈ ring.cursors,
    entry.2 ≤ ring.published ∧ ring.claimed ≤ entry.2 + ring.capacity
  registered : ∀ entry ∈ ring.cursors, entry.1 < ring.registered
  distinct : (ring.cursors.map Prod.fst).Nodup
  /-- What is published is in the slots, as far as it is in reach behind what is claimed. -/
  stored : ∀ n < ring.published, ring.claimed ≤ n + ring.capacity →
    ring.value? n = granted.flatten[n]?

theorem memory_start (capacity : Nat) : Memory (.ofCapacity capacity : Ring α) [] where
  claimed := rfl
  published := ⟨[], [], rfl, rfl⟩
  room := Nat.zero_le _
  cursors _ h := nomatch h
  registered _ h := nomatch h
  distinct := List.nodup_nil
  stored _ h := absurd h (Nat.not_lt_zero _)

namespace Memory

theorem published_le (h : Memory ring granted) : ring.published ≤ ring.claimed := by
  obtain ⟨before, after, rfl, hpublished⟩ := h.published
  rw [h.claimed, hpublished, List.flatten_append, List.length_append]
  exact Nat.le_add_right _ _

/-- What a consumer has still to read is in the slots. -/
theorem stored_of_mem (h : Memory ring granted) (hmem : (consumer, cursor) ∈ ring.cursors)
    (hle : cursor ≤ number) (hlt : number < ring.published) :
    ring.value? number = granted.flatten[number]? := by
  obtain ⟨-, hreach⟩ := h.cursors _ hmem
  exact h.stored number hlt (Nat.le_trans hreach (Nat.add_le_add_right hle _))

end Memory

/-! ## What a party knows -/

/-- A batch was granted the range from `start` on, which is not published yet. -/
structure Pending (published : Nat) (granted : List (List α)) (start : Nat) (batch : List α) :
    Prop where
  granted : ∃ before after, granted = before ++ batch :: after ∧ start = before.flatten.length
  batch_ne : batch ≠ []
  unpublished : published ≤ start

/-- Values are in the slots from `start` on. -/
def Written (ring : Ring α) (start : Nat) (values : List α) : Prop :=
  ∀ i < values.length, ring.value? (start + i) = values[i]?

/-- A gate is not behind any cursor, those that are left to look at apart. -/
structure Below (published : Nat) (cursors : List (ConsumerId × Nat)) (gate : Nat)
    (left : List ConsumerId) : Prop where
  published : gate ≤ published
  cursors : ∀ id cursor, (id, cursor) ∈ cursors → id ∉ left → gate ≤ cursor

/-- A party is a consumer that reads the value of this number next. -/
def Stands (ring : Ring α) (party : Party) (number : Nat) : Prop :=
  ∃ id, party = .consumer id ∧ (id, number) ∈ ring.cursors

/-- What holds of the ring while a party is at a stage. -/
def Knows (ring : Ring α) (granted : List (List α)) (party : Party) : Stage α → Prop
  | .listing _ _ gate => gate ≤ ring.published
  | .scanning _ _ gate left => Below ring.published ring.cursors gate left
  | .weighing _ _ gate => Below ring.published ring.cursors gate []
  | .swapping offer start gate =>
    Below ring.published ring.cursors gate [] ∧ start + offer.length ≤ gate + ring.capacity
  | .filling start filled left =>
    Pending ring.published granted start (filled ++ left) ∧ Written ring start filled
  | .awaiting start batch => Pending ring.published granted start batch ∧ Written ring start batch
  | .publishing start batch =>
    Pending ring.published granted start batch ∧ Written ring start batch ∧ ring.published = start
  | .enrolling cursor => cursor ≤ ring.published ∧ ring.claimed ≤ cursor + ring.capacity
  | .comparing number => Stands ring party number
  | .reading number => Stands ring party number ∧ number < ring.published
  | .moving number found =>
    Stands ring party number ∧ number < ring.published ∧ found = granted.flatten[number]?
  | _ => True

/-- What two parties must not do to each other. -/
structure Agree (one other : Stage α) : Prop where
  /-- Claimed ranges have no number in common. -/
  apart : ∀ range ∈ one.range?, ∀ range' ∈ other.range?,
    range.1 + range.2.length ≤ range'.1 ∨ range'.1 + range'.2.length ≤ range.1
  /-- A cursor that is about to be added is not behind a gate that was computed without it. -/
  ahead : ∀ cursor gate, one = .enrolling cursor → other.gate? = some gate → gate ≤ cursor

/-- A party at a stage has the lock in its hands that the stage needs. -/
structure Holds (lock : Lock) (party : Party) (stage : Stage α) : Prop where
  lists : stage.Lists → ∃ holders, lock = .shared holders ∧ party ∈ holders
  edits : stage.Edits → lock = .exclusive party

/-- What holds of a ring and of all who use it. -/
structure Sound (machine : Machine α) : Prop where
  memory : Memory machine.ring machine.granted
  knows : ∀ party, Knows machine.ring machine.granted party (machine.stages party)
  agree : ∀ one other, one ≠ other → Agree (machine.stages one) (machine.stages other)
  holds : ∀ party, Holds machine.lock party (machine.stages party)

/-! ## Ranges -/

theorem Pending.length_le (h : Pending published granted start batch) :
    start + batch.length ≤ granted.flatten.length := by
  obtain ⟨before, after, rfl, rfl⟩ := h.granted
  rw [List.flatten_append, List.flatten_cons, List.length_append, List.length_append]
  omega

/-- The values of a range are those of its batch. -/
theorem Pending.getElem? (h : Pending published granted start batch) {i : Nat}
    (hi : i < batch.length) :
    granted.flatten[start + i]? = batch[i]? := by
  obtain ⟨before, after, rfl, rfl⟩ := h.granted
  rw [List.flatten_append, List.flatten_cons, List.getElem?_append_right (Nat.le_add_right _ _),
    Nat.add_sub_cancel_left, List.getElem?_append_left hi]

/-- Whoever has claimed a range knows it to be pending. -/
theorem Knows.pending (h : Knows ring granted party stage) {range : Nat × List α}
    (hrange : stage.range? = some range) : Pending ring.published granted range.1 range.2 := by
  cases stage <;> cases hrange
  case filling => exact h.1
  case awaiting => exact h.1
  case publishing => exact h.1

/-- A gate that a claim may still rely on is not behind any cursor. -/
theorem Knows.below (h : Knows ring granted party stage) (hgate : stage.gate? = some gate) :
    Below ring.published ring.cursors gate [] := by
  cases stage <;> cases hgate
  case weighing => exact h
  case swapping => exact h.1

end CommitLog.Queue.Contention
