import CommitLog.Proofs.Lookup
import CommitLog.Queue.Ring

/-!
# What a ring hands over

A ring forgets what everybody has read, so it does not tell of all values that were published.
`Records` says that it does as far as anybody needs it: the last values of a row are in its slots,
and no cursor has fallen behind them. What a consumer has not seen is then the row behind its
cursor, and publishing a batch puts it behind that for every consumer at once.
-/

namespace CommitLog.Queue.Ring

variable {α : Type} {ring : Ring α} {values batch : List α} {consumer other : ConsumerId}
  {cursor number : Nat}

/-- The ring tells of a row of published values. -/
structure Records (ring : Ring α) (values : List α) : Prop where
  isOpen : ring.closed = false
  claimed : ring.claimed = values.length
  published : ring.published = values.length
  /-- The last values are in the slots. -/
  slots : ∀ n, n < values.length → values.length ≤ n + ring.capacity → ring.value? n = values[n]?
  cursor : ∀ entry ∈ ring.cursors,
    entry.2 ≤ values.length ∧ values.length ≤ entry.2 + ring.capacity
  registered : ∀ entry ∈ ring.cursors, entry.1 < ring.registered

theorem records_ofCapacity (capacity : Nat) : (ofCapacity capacity : Ring α).Records [] where
  isOpen := rfl
  claimed := rfl
  published := rfl
  slots := by simp
  cursor := by simp [ofCapacity]
  registered := by simp [ofCapacity]

/-! ## Cursors -/

theorem lookup_append_of_lt {cursors : List (ConsumerId × Nat)}
    (h : cursors.lookup consumer = some cursor) (more : List (ConsumerId × Nat)) :
    (cursors ++ more).lookup consumer = some cursor := by
  rw [List.lookup_append, h, Option.some_or]

theorem lookup_append_new {cursors : List (ConsumerId × Nat)}
    (h : ∀ entry ∈ cursors, entry.1 < consumer) :
    (cursors ++ [(consumer, cursor)]).lookup consumer = some cursor := by
  rw [List.lookup_append]
  cases hold : cursors.lookup consumer with
  | none => simp
  | some found => exact absurd (h _ (mem_of_lookup hold)) (Nat.lt_irrefl _)

theorem lookup_advanceCursor_ne {cursors : List (ConsumerId × Nat)} (hne : other ≠ consumer) :
    (advanceCursor other cursors).lookup consumer = cursors.lookup consumer := by
  induction cursors with
  | nil => rfl
  | cons head rest ih =>
    obtain ⟨id, first⟩ := head
    unfold advanceCursor
    split
    next hid =>
      have hdiffer : (consumer == id) = false := by
        rw [hid]
        simpa using Ne.symm hne
      rw [List.lookup_cons, List.lookup_cons, hdiffer]
    next => rw [List.lookup_cons, List.lookup_cons, ih]

theorem mem_advanceCursor {cursors : List (ConsumerId × Nat)} {entry : ConsumerId × Nat}
    (h : entry ∈ advanceCursor consumer cursors) :
    entry ∈ cursors ∨ ∃ before, cursors.lookup consumer = some before ∧
      entry = (consumer, before + 1) := by
  induction cursors with
  | nil => simp [advanceCursor] at h
  | cons head rest ih =>
    obtain ⟨id, first⟩ := head
    unfold advanceCursor at h
    split at h
    next hid =>
      rcases List.mem_cons.1 h with rfl | h
      · refine Or.inr ⟨first, ?_, by rw [hid]⟩
        rw [List.lookup_cons, hid, beq_self_eq_true]
      · exact Or.inl (List.mem_cons_of_mem _ h)
    next hid =>
      rcases List.mem_cons.1 h with rfl | h
      · exact Or.inl List.mem_cons_self
      · rcases ih h with hmem | ⟨before, hlookup, rfl⟩
        · exact Or.inl (List.mem_cons_of_mem _ hmem)
        · have hdiffer : (consumer == id) = false := by simpa using Ne.symm hid
          exact Or.inr ⟨before, by rw [List.lookup_cons, hdiffer, hlookup], rfl⟩

/-! ## What is not seen yet -/

theorem filterMap_range' (values : List α) (value? : Nat → Option α) (start : Nat)
    (h : ∀ n, start ≤ n → n < values.length → value? n = values[n]?) :
    (List.range' start (values.length - start)).filterMap value? = values.drop start := by
  -- on how many values are still to come
  induction hcount : values.length - start generalizing start with
  | zero =>
    rw [List.drop_eq_nil_of_le (by omega)]
    rfl
  | succ count ih =>
    have hlt : start < values.length := by omega
    have hrest := ih (start + 1) (fun n hn => h n (by omega)) (by omega)
    rw [List.range'_succ, List.filterMap_cons, h start (Nat.le_refl _) hlt,
      List.getElem?_eq_getElem hlt, List.drop_eq_getElem_cons hlt, ← hrest]

namespace Records

variable (h : ring.Records values)

include h

/-- **What a consumer has not seen is the row behind its cursor.** -/
theorem unread (hcursor : ring.cursors.lookup consumer = some cursor) :
    ring.unread consumer = values.drop cursor := by
  obtain ⟨-, hlag⟩ := h.cursor _ (mem_of_lookup hcursor)
  simp only at hlag
  simp only [Ring.unread, hcursor, h.published]
  exact filterMap_range' values ring.value? cursor fun n hn hlt => h.slots n hlt (by omega)

theorem subscribe : ring.subscribe.2.Records values where
  isOpen := h.isOpen
  claimed := h.claimed
  published := h.published
  slots := h.slots
  cursor entry hentry := by
    rcases List.mem_append.1 hentry with hentry | hentry
    · exact h.cursor entry hentry
    · rw [List.mem_singleton.1 hentry]
      have hpublished := h.published
      exact ⟨by simp only; omega, by simp only; omega⟩
  registered entry hentry := by
    rcases List.mem_append.1 hentry with hentry | hentry
    · exact Nat.lt_succ_of_lt (h.registered entry hentry)
    · rw [List.mem_singleton.1 hentry]
      exact Nat.lt_succ_self _

theorem lookup_subscribe :
    ring.subscribe.2.cursors.lookup ring.subscribe.1 = some values.length := by
  rw [← h.published]
  exact lookup_append_new h.registered

theorem unsubscribe (other : ConsumerId) : (ring.unsubscribe other).Records values where
  isOpen := h.isOpen
  claimed := h.claimed
  published := h.published
  slots := h.slots
  cursor entry hentry := h.cursor entry (List.mem_filter.1 hentry).1
  registered entry hentry := h.registered entry (List.mem_filter.1 hentry).1

/-! ## Polling -/

/-- A consumer that has not seen everything gets the next value. -/
theorem next_of_lt (hcursor : ring.cursors.lookup consumer = some cursor)
    (hlt : cursor < values.length) :
    ring.next consumer
      = (.ready values[cursor], { ring with cursors := advanceCursor consumer ring.cursors }) := by
  obtain ⟨-, hlag⟩ := h.cursor _ (mem_of_lookup hcursor)
  have hvalue := h.slots cursor hlt hlag
  rw [List.getElem?_eq_getElem hlt] at hvalue
  simp only [next, hcursor, h.published, if_neg (Nat.not_le.2 hlt), hvalue]

/-- One that has seen everything is told so. -/
theorem next_of_le (hcursor : ring.cursors.lookup consumer = some cursor)
    (hle : values.length ≤ cursor) : ring.next consumer = (.empty, ring) := by
  simp only [next, hcursor, h.published, if_pos hle, h.isOpen, Bool.false_eq_true, if_false]

theorem advance (hcursor : ring.cursors.lookup consumer = some cursor)
    (hlt : cursor < values.length) :
    ({ ring with cursors := advanceCursor consumer ring.cursors } : Ring α).Records values where
  isOpen := h.isOpen
  claimed := h.claimed
  published := h.published
  slots := h.slots
  cursor entry hentry := by
    rcases mem_advanceCursor hentry with hentry | ⟨before, hbefore, rfl⟩
    · exact h.cursor entry hentry
    · rw [hcursor] at hbefore
      obtain rfl := Option.some.inj hbefore
      obtain ⟨-, hlag⟩ := h.cursor _ (mem_of_lookup hcursor)
      simp only [capacity] at hlag ⊢
      exact ⟨hlt, by omega⟩
  registered entry hentry := by
    rcases mem_advanceCursor hentry with hentry | ⟨before, hbefore, rfl⟩
    · exact h.registered entry hentry
    · exact h.registered (consumer, before) (mem_of_lookup hbefore)

/-- A poll by anybody leaves the row as it is. -/
theorem next (other : ConsumerId) : (ring.next other).2.Records values := by
  cases hcursor : ring.cursors.lookup other with
  | none =>
    simp only [Ring.next, hcursor]
    exact h
  | some cursor =>
    rcases Nat.lt_or_ge cursor values.length with hlt | hle
    · rw [h.next_of_lt hcursor hlt]
      exact h.advance hcursor hlt
    · rw [h.next_of_le hcursor hle]
      exact h

end Records

/-- A poll moves nobody else's cursor. -/
theorem lookup_next_ne (ring : Ring α) (hne : other ≠ consumer) :
    (ring.next other).2.cursors.lookup consumer = ring.cursors.lookup consumer := by
  simp only [next]
  split
  next => rfl
  next =>
    split
    next => rfl
    next => split <;> exact lookup_advanceCursor_ne hne

/-! ## Filling slots -/

theorem mod_ne_of_lt {a b size : Nat} (h : a < b) (hsize : b < a + size) :
    b % size ≠ a % size := by
  intro hsame
  have hzero := Nat.sub_mod_eq_zero_of_mod_eq hsame
  rw [Nat.mod_eq_of_lt (by omega)] at hzero
  omega

theorem getElem?_fill_of_ne (slots : Array (Option α)) (number : Nat) (batch : List α) {i : Nat}
    (h : ∀ k, k < batch.length → (number + k) % slots.size ≠ i) :
    (fill slots number batch)[i]? = slots[i]? := by
  induction batch generalizing slots number with
  | nil => rfl
  | cons value later ih =>
    have hfirst := h 0 (by simp)
    unfold fill
    rw [ih]
    · rw [Array.getElem?_setIfInBounds, if_neg (by simpa using hfirst)]
    · intro k hk
      rw [Array.size_setIfInBounds, show number + 1 + k = number + (k + 1) by omega]
      exact h (k + 1) (by simpa using hk)

theorem getElem?_fill (slots : Array (Option α)) (number : Nat) (batch : List α)
    (hlength : batch.length ≤ slots.size) {k : Nat} (hk : k < batch.length) :
    (fill slots number batch)[(number + k) % slots.size]? = some batch[k]? := by
  induction batch generalizing slots number k with
  | nil => simp at hk
  | cons value later ih =>
    rw [List.length_cons] at hlength hk
    have hpos : 0 < slots.size := by omega
    have hsize : (slots.setIfInBounds (number % slots.size) (some value)).size = slots.size :=
      Array.size_setIfInBounds
    unfold fill
    -- later values of the batch go to other slots, since the batch is no longer than the ring
    cases k with
    | zero =>
      rw [getElem?_fill_of_ne, Nat.add_zero, Array.getElem?_setIfInBounds, if_pos rfl,
        if_pos (Nat.mod_lt _ hpos)]
      · rfl
      · intro j hj
        rw [hsize, Nat.add_zero]
        exact mod_ne_of_lt (by omega) (by omega)
    | succ k =>
      have hrest := ih (slots.setIfInBounds (number % slots.size) (some value)) (number + 1)
        (k := k) (by omega) (by omega)
      rw [hsize, show number + 1 + k = number + (k + 1) by omega] at hrest
      exact hrest

/-! ## Publishing -/

theorem gate_le (ring : Ring α) :
    ring.gate ≤ ring.published ∧ ∀ entry ∈ ring.cursors, ring.gate ≤ entry.2 := by
  have hfold : ∀ (cursors : List Nat) (start : Nat),
      cursors.foldl min start ≤ start ∧ ∀ n ∈ cursors, cursors.foldl min start ≤ n := by
    intro cursors
    induction cursors with
    | nil => simp
    | cons first later ih =>
      intro start
      obtain ⟨hstart, hlater⟩ := ih (min start first)
      rw [List.foldl_cons]
      refine ⟨by omega, ?_⟩
      intro n hn
      rcases List.mem_cons.1 hn with rfl | hn
      · omega
      · exact hlater n hn
  obtain ⟨hpublished, hcursors⟩ := hfold (ring.cursors.map Prod.snd) ring.published
  exact ⟨hpublished, fun entry hentry => hcursors _ (List.mem_map_of_mem hentry)⟩

/-- A batch that finds room goes behind the row. -/
theorem Records.fillAndPublish (h : ring.Records values)
    (hroom : ring.claimed + batch.length - ring.gate ≤ ring.capacity) :
    (({ ring with claimed := ring.claimed + batch.length } : Ring α).fillAndPublish ring.claimed
      batch).Records (values ++ batch) := by
  obtain ⟨hpublished, hcursors⟩ := gate_le ring
  have hclaimed := h.claimed
  have hend := h.published
  have hlength : batch.length ≤ ring.slots.size := by
    simp only [capacity] at hroom
    omega
  have hcapacity : (({ ring with claimed := ring.claimed + batch.length } : Ring α).fillAndPublish
      ring.claimed batch).capacity = ring.capacity := size_fill ..
  refine ⟨h.isOpen, ?_, ?_, ?_, ?_, h.registered⟩
  · rw [List.length_append, ← hclaimed]
    rfl
  · rw [List.length_append, ← hclaimed]
    rfl
  · intro n hn hlag
    rw [hcapacity] at hlag
    rw [List.length_append] at hn hlag
    simp only [value?, hcapacity]
    -- a record of the batch takes the slot of one that has fallen out of reach
    rcases Nat.lt_or_ge n values.length with hold | hnew
    · have hkept : (fill ring.slots ring.claimed batch)[n % ring.capacity]?
          = ring.slots[n % ring.capacity]? := by
        refine getElem?_fill_of_ne _ _ _ fun k hk => ?_
        refine mod_ne_of_lt (by omega) ?_
        simp only [capacity] at hlag
        omega
      have hvalue := h.slots n hold (by omega)
      rw [List.getElem?_append_left hold, ← hvalue, value?, ← hkept]
      rfl
    · have hk : n - values.length < batch.length := by omega
      have hfilled := getElem?_fill ring.slots ring.claimed batch hlength hk
      rw [show ring.claimed + (n - values.length) = n by omega] at hfilled
      rw [List.getElem?_append_right hnew]
      show ((fill ring.slots ring.claimed batch)[n % ring.slots.size]?).join = _
      rw [hfilled]
      rfl
  · intro entry hentry
    -- no cursor is behind the gate, so the batch overtakes nobody
    have hgate := hcursors entry hentry
    obtain ⟨hle, -⟩ := h.cursor entry hentry
    rw [hcapacity, List.length_append]
    exact ⟨by omega, by omega⟩

/-- A publication of a batch that the ring can hold is complete, or waits for room. -/
theorem resume_cases (h : ring.Records values) (publication : Publication α) :
    (∃ after, ring.resume publication = (.published, after) ∧
        after.Records (values ++ publication.batch) ∧ after.cursors = ring.cursors ∧
        after.capacity = ring.capacity) ∨
      ring.resume publication = (.waiting publication, ring) := by
  have hopen : ¬ring.closed = true := by
    rw [h.isOpen]
    exact Bool.false_ne_true
  unfold resume claim
  rw [if_neg hopen]
  by_cases hroom : ring.capacity < ring.claimed + publication.batch.length - ring.gate
  · rw [if_pos hroom]
    exact Or.inr rfl
  · rw [if_neg hroom]
    exact Or.inl ⟨_, rfl, h.fillAndPublish (Nat.le_of_not_lt hroom), rfl, size_fill ..⟩

theorem publish_eq_resume (h : ring.closed = false) (hbatch : batch ≠ [])
    (hlength : batch.length ≤ ring.capacity) : ring.publish batch = ring.resume { batch } := by
  have hrefusal : ring.refusal? batch.length = none := by
    unfold refusal?
    rw [h, if_neg Bool.false_ne_true, if_neg (Nat.not_lt.2 hlength)]
  unfold publish
  rw [if_neg (by simpa using hbatch), hrefusal]

end CommitLog.Queue.Ring
