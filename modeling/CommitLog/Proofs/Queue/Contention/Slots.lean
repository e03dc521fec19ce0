import CommitLog.Proofs.Queue.Contention.Whole

/-!
# No slot is overwritten while it is needed

What the parties of a ring know adds up to what its slots must never see: two writers, a writer
where somebody has still to read or is reading, or a reader before the writer. Numbers between the
gate of a claim and its end are less than the capacity apart, so their slots are different ones.
-/

namespace CommitLog.Queue.Contention

open CommitLog.Queue.Ring (mod_ne_of_lt)

variable {α : Type} {machine after : Machine α} {party : Party} {number capacity : Nat}
  {range : Nat × List α} {consumer : ConsumerId} {cursor : Nat}

/-! ## Steps and what they leave -/

namespace Step

variable (h : Step machine after)

include h

/-- Batches that were granted a range keep it: later ones come behind. -/
theorem granted_eq : after.granted = machine.granted ∨
    ∃ batch, after.granted = machine.granted ++ [batch] := by
  cases h with
  | granted => exact .inr ⟨_, rfl⟩
  | _ => exact .inl rfl

theorem capacity_eq : after.ring.capacity = machine.ring.capacity := by
  cases h with
  | filled => exact capacity_write ..
  | _ => rfl

theorem claimed?_eq {value : α} (hclaimed : machine.claimed? number = some value) :
    after.claimed? number = some value := by
  unfold Machine.claimed? at hclaimed ⊢
  rcases h.granted_eq with hsame | ⟨batch, hmore⟩
  · rw [hsame, hclaimed]
  · rw [hmore, List.flatten_append, List.getElem?_append_left, hclaimed]
    exact (List.getElem?_eq_some_iff.1 hclaimed).1

/-- Only a producer that publishes its range moves what is published. -/
theorem published_eq : after.ring.published = machine.ring.published ∨
    ∃ party start batch, machine.stages party = .publishing start batch ∧
      after.ring.published = start + batch.length := by
  cases h with
  | published stage => exact .inr ⟨_, _, _, stage, rfl⟩
  | _ => exact .inl rfl

end Step

theorem Reachable.capacity_eq (h : Reachable capacity machine) :
    machine.ring.capacity = max capacity 1 := by
  induction h with
  | start => exact Array.size_replicate
  | step _ hstep ih => rw [hstep.capacity_eq, ih]

/-! ## Slots of numbers -/

/-- Two numbers that are claimed, and in reach of what is claimed last, have different slots. -/
theorem Machine.slotOf_ne {m n : Nat} (hreach : machine.ring.claimed ≤ m + machine.ring.capacity)
    (hlt : m < n) (hclaimed : n < machine.ring.claimed) :
    machine.slotOf m ≠ machine.slotOf n :=
  (mod_ne_of_lt hlt (Nat.lt_of_lt_of_le hclaimed hreach)).symm

namespace Sound

variable (h : Sound machine)

include h

/-- A range that is pending lies between what is published and what is claimed. -/
theorem range_bounds (hrange : (machine.stages party).range? = some range) :
    machine.ring.published ≤ range.1 ∧ range.1 + range.2.length ≤ machine.ring.claimed := by
  have hpending := (h.knows party).pending hrange
  exact ⟨hpending.unpublished, h.memory.claimed ▸ hpending.length_le⟩

/-- A number whose slot is about to be written is claimed and not published. -/
theorem writes_bounds (hwrites : (machine.stages party).writes? = some number) :
    machine.ring.published ≤ number ∧ number < machine.ring.claimed := by
  cases hstage : machine.stages party with
  | filling start filled left =>
    rw [hstage] at hwrites
    cases left with
    | nil => cases hwrites
    | cons value later =>
      cases hwrites
      have hrange : (machine.stages party).range? = some (start, filled ++ value :: later) := by
        rw [hstage]
        rfl
      obtain ⟨hpublished, hclaimed⟩ := h.range_bounds hrange
      rw [List.length_append, List.length_cons] at hclaimed
      exact ⟨by omega, by omega⟩
  | _ =>
    rw [hstage] at hwrites
    cases hwrites

/-- A slot that is about to be written holds nothing that is still to be read. -/
theorem slotOf_ne_of_mem (hwrites : (machine.stages party).writes? = some number)
    (hmem : (consumer, cursor) ∈ machine.ring.cursors) {n : Nat} (hle : cursor ≤ n)
    (hlt : n < machine.ring.published) : machine.slotOf n ≠ machine.slotOf number := by
  obtain ⟨hpublished, hclaimed⟩ := h.writes_bounds hwrites
  obtain ⟨-, hreach⟩ := h.memory.cursors _ hmem
  exact Machine.slotOf_ne (Nat.le_trans hreach (Nat.add_le_add_right hle _))
    (Nat.lt_of_lt_of_le hlt hpublished) hclaimed

/-- A consumer that reads a value has its cursor there, and the value is published. -/
theorem mem_of_reading (hreading : machine.stages (.consumer consumer) = .reading number) :
    (consumer, number) ∈ machine.ring.cursors ∧ number < machine.ring.published := by
  have hknows := h.knows (.consumer consumer)
  rw [hreading] at hknows
  obtain ⟨⟨_, hparty, hmem⟩, hlt⟩ := hknows
  cases hparty
  exact ⟨hmem, hlt⟩

theorem claimed?_of_published (hlt : number < machine.ring.published) :
    ∃ value, machine.claimed? number = some value := by
  have hclaimed := Nat.lt_of_lt_of_le hlt h.memory.published_le
  rw [h.memory.claimed] at hclaimed
  exact ⟨_, List.getElem?_eq_getElem hclaimed⟩

end Sound

/-! ## What slots never see -/

/-- Every slot has one writer at a time, and no reader before or beside it. -/
structure Safe (machine : Machine α) : Prop where
  /-- Ranges that are claimed and not published yet share no slot. -/
  apart : ∀ one other, one ≠ other → ∀ range ∈ (machine.stages one).range?,
    ∀ range' ∈ (machine.stages other).range?, ∀ i < range.2.length, ∀ j < range'.2.length,
      machine.slotOf (range.1 + i) ≠ machine.slotOf (range'.1 + j)
  /-- Nobody writes a slot whose value a registered consumer has still to read. -/
  unread : ∀ party number, (machine.stages party).writes? = some number →
    ∀ consumer cursor, (consumer, cursor) ∈ machine.ring.cursors →
      ∀ n, cursor ≤ n → n < machine.ring.published → machine.slotOf n ≠ machine.slotOf number
  /-- Nobody writes a slot that a consumer is reading. -/
  unwatched : ∀ party number, (machine.stages party).writes? = some number →
    ∀ consumer n, machine.stages (.consumer consumer) = .reading n →
      machine.slotOf n ≠ machine.slotOf number
  /-- A consumer that reads a slot finds the value that its number was claimed for. -/
  found : ∀ consumer n, machine.stages (.consumer consumer) = .reading n →
    ∃ value, machine.ring.value? n = some value ∧ machine.claimed? n = some value
  /-- So it has that value, once it has read the slot. -/
  copied : ∀ consumer n copy, machine.stages (.consumer consumer) = .moving n copy →
    ∃ value, copy = some value ∧ machine.claimed? n = some value
  /-- A range is claimed for the values of its batch. -/
  claims : ∀ party, ∀ range ∈ (machine.stages party).range?, ∀ i < range.2.length,
    machine.claimed? (range.1 + i) = range.2[i]?
  /-- A number that was claimed for a value remains so. -/
  remains : ∀ after, Step machine after → ∀ number value,
    machine.claimed? number = some value → after.claimed? number = some value
  /-- What is published stays, or moves from the end of one range to the end of the next. -/
  turns : ∀ after, Step machine after → after.ring.published = machine.ring.published ∨
    ∃ before batch later, machine.granted = before ++ batch :: later ∧ batch ≠ [] ∧
      machine.ring.published = before.flatten.length ∧
      after.ring.published = (before ++ [batch]).flatten.length

theorem Sound.turns (h : Sound machine) (hstep : Step machine after) :
    after.ring.published = machine.ring.published ∨
    ∃ before batch later, machine.granted = before ++ batch :: later ∧ batch ≠ [] ∧
      machine.ring.published = before.flatten.length ∧
      after.ring.published = (before ++ [batch]).flatten.length := by
  refine hstep.published_eq.imp_right ?_
  rintro ⟨party, start, batch, hstage, hpublished⟩
  have hknows := h.knows party
  rw [hstage] at hknows
  obtain ⟨hpending, -, hturn⟩ := hknows
  obtain ⟨before, later, hgranted, hstart⟩ := hpending.granted
  refine ⟨before, batch, later, hgranted, hpending.batch_ne, by rw [hturn, hstart], ?_⟩
  rw [hpublished, hstart, List.flatten_append, List.length_append, List.flatten_singleton]

/-- **No slot of a ring is overwritten while it is needed, or read before it is written.** However
many producers and consumers come and go, and in whatever order they access the ring. -/
theorem slots_are_safe (h : Reachable capacity machine) :
    machine.ring.capacity = max capacity 1 ∧ Safe machine := by
  have hsound := h.sound
  refine ⟨h.capacity_eq, ?_⟩
  exact {
    apart := fun one other hne range hrange range' hrange' i hi j hj => by
      obtain ⟨hlow, hhigh⟩ := hsound.range_bounds hrange
      obtain ⟨hlow', hhigh'⟩ := hsound.range_bounds hrange'
      have hroom := hsound.memory.room
      -- the ranges have no number in common, and all of them are in reach
      rcases (hsound.agree one other hne).apart range hrange range' hrange' with hle | hle
      · exact Machine.slotOf_ne (by omega) (by omega) (by omega)
      · exact (Machine.slotOf_ne (by omega) (by omega) (by omega)).symm
    unread := fun party number hwrites consumer cursor hmem n hle hlt =>
      hsound.slotOf_ne_of_mem hwrites hmem hle hlt
    unwatched := fun party number hwrites consumer n hreading =>
      let ⟨hmem, hlt⟩ := hsound.mem_of_reading hreading
      hsound.slotOf_ne_of_mem hwrites hmem (Nat.le_refl n) hlt
    found := fun consumer n hreading => by
      obtain ⟨hmem, hlt⟩ := hsound.mem_of_reading hreading
      obtain ⟨value, hvalue⟩ := hsound.claimed?_of_published hlt
      exact ⟨value, (hsound.memory.stored_of_mem hmem (Nat.le_refl n) hlt).trans hvalue, hvalue⟩
    copied := fun consumer n copy hmoving => by
      have hknows := hsound.knows (.consumer consumer)
      rw [hmoving] at hknows
      obtain ⟨-, hlt, hcopy⟩ := hknows
      obtain ⟨value, hvalue⟩ := hsound.claimed?_of_published hlt
      exact ⟨value, hcopy.trans hvalue, hvalue⟩
    claims := fun party range hrange i hi => ((hsound.knows party).pending hrange).getElem? hi
    remains := fun after hstep number value hclaimed => hstep.claimed?_eq hclaimed
    turns := fun after hstep => hsound.turns hstep }

/-- A consumer reads the first value while a producer is about to write the second one. -/
theorem slots_are_safe_of_reader_and_writer : ∃ machine : Machine Bool, Reachable 2 machine ∧
    machine.stages (.consumer 0) = .reading 0 ∧
    machine.stages (.caller 1) = .filling 1 [] [false] ∧
    machine.ring.value? 0 = some true ∧ machine.claimed? 0 = some true ∧
    machine.slotOf 0 ≠ machine.slotOf 1 := by
  -- somebody subscribes, publishes a value, and the consumer comes to read it
  have hstart : Reachable 2 (.start 2 : Machine Bool) := .start
  have hsubscribed := hstart.leads (leads_subscribe 0 rfl rfl)
  obtain ⟨granted, hoffered⟩ := leads_offered ⟨hsubscribed.sound, rfl, rfl⟩ 0 rfl
    ⟨[true], by decide, false⟩
  have hpublished := hsubscribed.leads hoffered
  have hpolled := hpublished.step (.looks (show Looks _ (.consumer 0) _ _ from .polls))
  have hcomparing := hpolled.leads (leads_looks (.loaded rfl))
  have hreading := hcomparing.leads (leads_looks (.foundValue (by exact Nat.zero_lt_one)))
  -- somebody else publishes another one
  have hchecking := hreading.step (.looks
    (show Looks _ (.caller 1) _ _ from .offered ⟨[false], by decide, false⟩))
  have hweighing := hchecking.leads ((leads_looks (.admitted rfl)).trans
    (Quiet.leads_weighing ⟨hreading.sound, rfl, rfl⟩ rfl))
  have hswapping := hweighing.leads (leads_looks (.foundRoom (Nat.zero_le 2) (Nat.le_refl 2)))
  have hfilling := hswapping.step (.granted (Machine.stages_goto ..) rfl)
  obtain ⟨-, hsafe⟩ := slots_are_safe hfilling
  obtain ⟨value, hvalue, hclaimed⟩ := hsafe.found 0 0 rfl
  obtain rfl : true = value := Option.some.inj hvalue
  exact ⟨_, hfilling, rfl, rfl, rfl, hclaimed, hsafe.unwatched (.caller 1) 1 rfl 0 0 rfl⟩

end CommitLog.Queue.Contention
