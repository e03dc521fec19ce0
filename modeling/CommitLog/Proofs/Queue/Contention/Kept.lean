import CommitLog.Proofs.Queue.Contention.Sound

/-!
# Writes to a ring, and what the others know

For each write two lemmas: `Memory` holds of the ring after it, and whoever did not make it still
knows what it knew (`Knows`). A write needs no more than what its own party knows.
-/

namespace CommitLog.Queue.Contention

open CommitLog.Queue.Ring (mod_ne_of_lt)

variable {α : Type} {ring : Ring α} {granted : List (List α)} {party : Party} {stage : Stage α}
  {offer : Offer α} {start number gate cursor published : Nat} {batch : List α}
  {consumer : ConsumerId}

/-! ## Claiming a range -/

theorem Memory.claimTo (h : Memory ring granted)
    (hbelow : Below ring.published ring.cursors gate [])
    (hroom : ring.claimed + offer.length ≤ gate + ring.capacity) :
    Memory (claimTo ring (ring.claimed + offer.length)) (granted ++ [offer.batch]) where
  claimed := by
    rw [List.flatten_append, List.length_append, ← h.claimed, List.flatten_singleton]
    rfl
  published := by
    obtain ⟨before, after, rfl, hpublished⟩ := h.published
    exact ⟨before, after ++ [offer.batch], List.append_assoc .., hpublished⟩
  room := Nat.le_trans hroom (Nat.add_le_add_right hbelow.published _)
  cursors entry hentry := by
    have hgate := hbelow.cursors _ _ hentry List.not_mem_nil
    exact ⟨(h.cursors entry hentry).1, Nat.le_trans hroom (Nat.add_le_add_right hgate _)⟩
  registered := h.registered
  distinct := h.distinct
  stored n hn hreach := by
    have hclaimed : n < granted.flatten.length := by
      rw [← h.claimed]
      exact Nat.lt_of_lt_of_le hn h.published_le
    rw [List.flatten_append, List.getElem?_append_left hclaimed]
    exact h.stored n hn (Nat.le_trans (Nat.le_add_right _ _) hreach)

theorem Pending.snoc (h : Pending published granted start batch) (last : List α) :
    Pending published (granted ++ [last]) start batch where
  granted := by
    obtain ⟨before, after, rfl, rfl⟩ := h.granted
    exact ⟨before, after ++ [last], by rw [List.append_assoc, List.cons_append], rfl⟩
  batch_ne := h.batch_ne
  unpublished := h.unpublished

/-- The range that was granted is pending. -/
theorem pending_claimTo (h : Memory ring granted) (offer : Offer α) :
    Pending ring.published (granted ++ [offer.batch]) ring.claimed offer.batch :=
  ⟨⟨granted, [], rfl, h.claimed⟩, offer.batch_ne, h.published_le⟩

theorem Knows.claimTo (h : Knows ring granted party stage) (hmemory : Memory ring granted)
    (hroom : ring.claimed + offer.length ≤ gate + ring.capacity)
    (hahead : ∀ cursor, stage = .enrolling cursor → gate ≤ cursor) :
    Knows (claimTo ring (ring.claimed + offer.length)) (granted ++ [offer.batch]) party stage := by
  cases stage with
  | filling => exact ⟨h.1.snoc _, h.2⟩
  | awaiting => exact ⟨h.1.snoc _, h.2⟩
  | publishing => exact ⟨h.1.snoc _, h.2⟩
  | enrolling cursor =>
    exact ⟨h.1, Nat.le_trans hroom (Nat.add_le_add_right (hahead cursor rfl) _)⟩
  | moving number =>
    obtain ⟨hstands, hlt, hfound⟩ := h
    have hclaimed : number < granted.flatten.length := by
      rw [← hmemory.claimed]
      exact Nat.lt_of_lt_of_le hlt hmemory.published_le
    refine ⟨hstands, hlt, ?_⟩
    rw [List.flatten_append, List.getElem?_append_left hclaimed, hfound]
  | _ => exact h

/-! ## Writing a slot -/

section Write

variable {value : α} (hpublished : ring.published ≤ number) (hclaimed : number < ring.claimed)

include hpublished hclaimed

theorem Memory.write (h : Memory ring granted) : Memory (write ring number value) granted where
  claimed := h.claimed
  published := h.published
  room := by
    rw [capacity_write]
    exact h.room
  cursors := by
    rw [capacity_write]
    exact h.cursors
  registered := h.registered
  distinct := h.distinct
  stored n hn hreach := by
    rw [capacity_write] at hreach
    rw [value?_write_of_ne, h.stored n hn hreach]
    -- `number` is claimed, so it is less than the capacity ahead of `n`
    exact mod_ne_of_lt (Nat.lt_of_lt_of_le hn hpublished) (Nat.lt_of_lt_of_le hclaimed hreach)

/-- A write to the slot of a pending number leaves those of the other pending numbers. -/
theorem value?_write_of_pending (h : Memory ring granted) {n : Nat} (hn : ring.published ≤ n)
    (hlt : n < ring.claimed) (hne : n ≠ number) :
    (Contention.write ring number value).value? n = ring.value? n := by
  refine value?_write_of_ne value ?_
  have hroom := h.room
  rcases Nat.lt_or_gt_of_ne hne with hlt | hgt
  · exact mod_ne_of_lt hlt (by omega)
  · exact (mod_ne_of_lt hgt (by omega)).symm

/-- What is in the slots of a pending range stays there when a number outside is written. -/
theorem Written.write {values : List α} (h : Written ring start values)
    (hmemory : Memory ring granted) (hpending : Pending ring.published granted start batch)
    (hle : values.length ≤ batch.length)
    (hapart : number < start ∨ start + batch.length ≤ number) :
    Written (write ring number value) start values := by
  intro i hi
  have hstart := hpending.unpublished
  have hstop := hpending.length_le
  rw [← hmemory.claimed] at hstop
  rw [value?_write_of_pending hpublished hclaimed hmemory (by omega) (by omega) (by omega)]
  exact h i hi

theorem Knows.write (h : Knows ring granted party stage) (hmemory : Memory ring granted)
    (hapart : ∀ range ∈ stage.range?,
      number < range.1 ∨ range.1 + range.2.length ≤ number) :
    Knows (write ring number value) granted party stage := by
  cases stage with
  | swapping =>
    rw [Knows, capacity_write]
    exact h
  | enrolling =>
    rw [Knows, capacity_write]
    exact h
  | filling start filled left =>
    have hle : filled.length ≤ (filled ++ left).length := by simp
    exact ⟨h.1, h.2.write hpublished hclaimed hmemory h.1 hle (hapart _ rfl)⟩
  | awaiting =>
    exact ⟨h.1, h.2.write hpublished hclaimed hmemory h.1 (Nat.le_refl _) (hapart _ rfl)⟩
  | publishing =>
    exact ⟨h.1, h.2.1.write hpublished hclaimed hmemory h.1 (Nat.le_refl _) (hapart _ rfl), h.2.2⟩
  | _ => exact h

end Write

/-! ## Publishing a range -/

/-- What is published comes to the end of another range, which is then in front of this one. -/
theorem Pending.publishTo {stop : Nat} (h : Pending published granted start batch)
    (hapart : stop ≤ start ∨ start + batch.length ≤ published) :
    Pending stop granted start batch where
  granted := h.granted
  batch_ne := h.batch_ne
  unpublished := by
    have hpos := List.length_pos_iff.2 h.batch_ne
    have hbehind := h.unpublished
    omega

theorem Below.publishTo {cursors : List (ConsumerId × Nat)} {left : List ConsumerId} {stop : Nat}
    (h : Below published cursors gate left) (hle : published ≤ stop) :
    Below stop cursors gate left :=
  ⟨Nat.le_trans h.published hle, h.cursors⟩

section Publish

variable (hpending : Pending ring.published granted start batch)
  (hturn : ring.published = start)

include hpending hturn

theorem Memory.publishTo (h : Memory ring granted) (hwritten : Written ring start batch) :
    Memory (publishTo ring (start + batch.length)) granted where
  claimed := h.claimed
  published := by
    obtain ⟨before, after, hgranted, hstart⟩ := hpending.granted
    refine ⟨before ++ [batch], after, by simp [hgranted], ?_⟩
    rw [List.flatten_append, List.length_append, ← hstart, List.flatten_singleton]
    rfl
  room := by
    have hroom := h.room
    show ring.claimed ≤ start + batch.length + ring.capacity
    omega
  cursors entry hentry := by
    obtain ⟨hle, hreach⟩ := h.cursors entry hentry
    refine ⟨?_, hreach⟩
    show entry.2 ≤ start + batch.length
    omega
  registered := h.registered
  distinct := h.distinct
  stored n hn hreach := by
    change n < start + batch.length at hn
    rcases Nat.lt_or_ge n start with hold | hnew
    · exact h.stored n (hturn ▸ hold) hreach
    · have hi : n - start < batch.length := by omega
      have hn : start + (n - start) = n := by omega
      have hvalue := (hwritten _ hi).trans (hpending.getElem? hi).symm
      rwa [hn] at hvalue

theorem Knows.publishTo (h : Knows ring granted party stage)
    (hapart : ∀ range ∈ stage.range?,
      start + batch.length ≤ range.1 ∨ range.1 + range.2.length ≤ start) :
    Knows (publishTo ring (start + batch.length)) granted party stage := by
  have hle : ring.published ≤ start + batch.length := by omega
  have hbehind : ∀ range ∈ stage.range?, Pending (start + batch.length) granted range.1 range.2 :=
    fun range hrange => (h.pending hrange).publishTo (hturn ▸ hapart range hrange)
  cases stage with
  | listing => exact Nat.le_trans h hle
  | scanning => exact Below.publishTo h hle
  | weighing => exact Below.publishTo h hle
  | swapping => exact ⟨h.1.publishTo hle, h.2⟩
  | filling => exact ⟨hbehind _ rfl, h.2⟩
  | awaiting => exact ⟨hbehind _ rfl, h.2⟩
  | publishing other rest =>
    -- the range that is published now starts there, so this one cannot
    have hpos := List.length_pos_iff.2 hpending.batch_ne
    have hother : start + batch.length ≤ other := (hbehind _ rfl).unpublished
    have hsame := h.2.2
    omega
  | enrolling => exact ⟨Nat.le_trans h.1 hle, h.2⟩
  | reading => exact ⟨h.1, Nat.lt_of_lt_of_le h.2 hle⟩
  | moving => exact ⟨h.1, Nat.lt_of_lt_of_le h.2.1 hle, h.2.2⟩
  | _ => exact h

end Publish

/-! ## Adding a cursor -/

theorem Memory.enroll (h : Memory ring granted) (hle : cursor ≤ ring.published)
    (hreach : ring.claimed ≤ cursor + ring.capacity) : Memory (enroll ring cursor) granted where
  claimed := h.claimed
  published := h.published
  room := h.room
  cursors entry hentry := by
    rcases List.mem_append.1 hentry with hentry | hentry
    · exact h.cursors entry hentry
    · rw [List.mem_singleton.1 hentry]
      exact ⟨hle, hreach⟩
  registered entry hentry := by
    rcases List.mem_append.1 hentry with hentry | hentry
    · exact Nat.lt_succ_of_lt (h.registered entry hentry)
    · rw [List.mem_singleton.1 hentry]
      exact Nat.lt_succ_self _
  distinct := by
    simp only [Contention.enroll, List.map_append, List.map_cons, List.map_nil]
    refine List.nodup_append.2 ⟨h.distinct, List.nodup_singleton _, ?_⟩
    rintro id hid _ hnew rfl
    obtain ⟨entry, hentry, rfl⟩ := List.mem_map.1 hid
    exact Nat.ne_of_lt (h.registered entry hentry) (List.mem_singleton.1 hnew)
  stored := h.stored

theorem Below.enroll {cursors : List (ConsumerId × Nat)} {left : List ConsumerId}
    (h : Below published cursors gate left) (hle : gate ≤ cursor) :
    Below published (cursors ++ [(consumer, cursor)]) gate left where
  published := h.published
  cursors id other hmem hid := by
    rcases List.mem_append.1 hmem with hmem | hmem
    · exact h.cursors id other hmem hid
    · obtain rfl : other = cursor := congrArg Prod.snd (List.mem_singleton.1 hmem)
      exact hle

theorem Stands.enroll (h : Stands ring party number) : Stands (enroll ring cursor) party number :=
  let ⟨id, hparty, hmem⟩ := h
  ⟨id, hparty, List.mem_append_left _ hmem⟩

theorem Knows.enroll (h : Knows ring granted party stage) (hlists : ¬stage.Lists)
    (hgate : ∀ gate, stage.gate? = some gate → gate ≤ cursor) :
    Knows (enroll ring cursor) granted party stage := by
  cases stage with
  | scanning => exact absurd trivial hlists
  | weighing => exact Below.enroll h (hgate _ rfl)
  | swapping => exact ⟨h.1.enroll (hgate _ rfl), h.2⟩
  | comparing => exact Stands.enroll h
  | reading => exact ⟨h.1.enroll, h.2⟩
  | moving => exact ⟨h.1.enroll, h.2⟩
  | _ => exact h

/-! ## Closing -/

theorem Memory.close (h : Memory ring granted) : Memory ring.close granted :=
  { h with }

theorem Knows.close (h : Knows ring granted party stage) :
    Knows ring.close granted party stage := h

/-! ## Moving a cursor -/

theorem Memory.moveTo (h : Memory ring granted) (hmem : (consumer, number) ∈ ring.cursors)
    (hlt : number < ring.published) : Memory (moveTo ring consumer (number + 1)) granted where
  claimed := h.claimed
  published := h.published
  room := h.room
  cursors entry hentry := by
    rcases mem_storeCursor hentry with hentry | rfl
    · exact h.cursors entry hentry
    · have hreach := (h.cursors _ hmem).2
      refine ⟨hlt, ?_⟩
      show ring.claimed ≤ number + 1 + ring.capacity
      omega
  registered entry hentry := by
    rcases mem_storeCursor hentry with hentry | rfl
    · exact h.registered entry hentry
    · exact h.registered (consumer, number) hmem
  distinct := by
    rw [Contention.moveTo, map_fst_storeCursor]
    exact h.distinct
  stored := h.stored

theorem Below.moveTo {cursors : List (ConsumerId × Nat)} {left : List ConsumerId}
    (h : Below published cursors gate left) (hmem : (consumer, number) ∈ cursors) :
    Below published (storeCursor consumer (number + 1) cursors) gate left where
  published := h.published
  cursors id cursor hentry hid := by
    rcases mem_storeCursor hentry with hentry | hnew
    · exact h.cursors id cursor hentry hid
    · obtain ⟨hsame, hnumber⟩ := Prod.mk.inj hnew
      rw [hsame] at hid
      rw [hnumber]
      exact Nat.le_succ_of_le (h.cursors consumer number hmem hid)

theorem Stands.moveTo (h : Stands ring party number) (hne : party ≠ .consumer consumer) :
    Stands (moveTo ring consumer cursor) party number := by
  obtain ⟨id, rfl, hmem⟩ := h
  exact ⟨id, rfl, mem_storeCursor_of_ne hmem fun hid => hne (congrArg _ hid)⟩

theorem Knows.moveTo (h : Knows ring granted party stage) (hne : party ≠ .consumer consumer)
    (hmem : (consumer, number) ∈ ring.cursors) :
    Knows (moveTo ring consumer (number + 1)) granted party stage := by
  cases stage with
  | scanning => exact Below.moveTo h hmem
  | weighing => exact Below.moveTo h hmem
  | swapping => exact ⟨h.1.moveTo hmem, h.2⟩
  | comparing => exact Stands.moveTo h hne
  | reading => exact ⟨h.1.moveTo hne, h.2⟩
  | moving => exact ⟨h.1.moveTo hne, h.2⟩
  | _ => exact h

/-! ## Taking a cursor away -/

theorem Memory.unsubscribe (h : Memory ring granted) (consumer : ConsumerId) :
    Memory (ring.unsubscribe consumer) granted where
  claimed := h.claimed
  published := h.published
  room := h.room
  cursors entry hentry := h.cursors entry (List.mem_filter.1 hentry).1
  registered entry hentry := h.registered entry (List.mem_filter.1 hentry).1
  distinct := h.distinct.sublist (List.filter_sublist.map _)
  stored := h.stored

theorem Below.unsubscribe {left : List ConsumerId} (consumer : ConsumerId)
    (h : Below ring.published ring.cursors gate left) :
    Below ring.published (ring.unsubscribe consumer).cursors gate left where
  published := h.published
  cursors id cursor hentry := h.cursors id cursor (List.mem_filter.1 hentry).1

theorem Stands.unsubscribe (h : Stands ring party number) (hne : party ≠ .consumer consumer) :
    Stands (ring.unsubscribe consumer) party number := by
  obtain ⟨id, rfl, hmem⟩ := h
  refine ⟨id, rfl, List.mem_filter.2 ⟨hmem, ?_⟩⟩
  rw [bne_iff_ne]
  exact fun hid => hne (congrArg _ hid)

theorem Knows.unsubscribe (h : Knows ring granted party stage) (hne : party ≠ .consumer consumer) :
    Knows (ring.unsubscribe consumer) granted party stage := by
  cases stage with
  | scanning => exact Below.unsubscribe consumer h
  | weighing => exact Below.unsubscribe consumer h
  | swapping => exact ⟨h.1.unsubscribe consumer, h.2⟩
  | comparing => exact Stands.unsubscribe h hne
  | reading => exact ⟨h.1.unsubscribe hne, h.2⟩
  | moving => exact ⟨h.1.unsubscribe hne, h.2⟩
  | _ => exact h

end CommitLog.Queue.Contention
