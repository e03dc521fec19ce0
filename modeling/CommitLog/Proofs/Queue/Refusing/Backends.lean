import CommitLog.Proofs.Queue.Closing

/-!
# What a queue keeps in order

The bounds of a queue are kept by everything that is done to it. Nobody has two cursors in a ring,
nor two mailboxes, and no mailbox holds more batches than it may: `Tidy`. What is done to a queue by
others than a new consumer brings in nobody, and leaves the queue tidy: `Minds`.
-/

namespace CommitLog.Queue.Ring

variable {α : Type} {ring : Ring α} {batch : List α} {consumer other : ConsumerId}

/-- Nobody has two cursors, and the next consumer has none yet. -/
structure Tidy (ring : Ring α) : Prop where
  distinct : (ring.cursors.map Prod.fst).Nodup
  registered : ∀ consumer ∈ ring.cursors.map Prod.fst, consumer < ring.registered

theorem tidy_ofCapacity (capacity : Nat) : (ofCapacity capacity : Ring α).Tidy where
  distinct := List.nodup_nil
  registered := by simp [ofCapacity]

theorem map_fst_advanceCursor (consumer : ConsumerId) (cursors : List (ConsumerId × Nat)) :
    (advanceCursor consumer cursors).map Prod.fst = cursors.map Prod.fst := by
  induction cursors with
  | nil => rfl
  | cons head rest ih =>
    obtain ⟨id, cursor⟩ := head
    unfold advanceCursor
    split
    next => rfl
    next => rw [List.map_cons, List.map_cons, ih]

theorem Tidy.subscribe (h : ring.Tidy) : ring.subscribe.2.Tidy where
  distinct := by
    show ((ring.cursors ++ [(ring.registered, ring.published)]).map Prod.fst).Nodup
    rw [List.map_append, List.nodup_append]
    refine ⟨h.distinct, by simp, ?_⟩
    rintro consumer hconsumer _ hnew rfl
    have hlt := h.registered consumer hconsumer
    rw [List.mem_singleton.1 hnew] at hlt
    exact Nat.lt_irrefl _ hlt
  registered := by
    show ∀ consumer ∈ (ring.cursors ++ [(ring.registered, ring.published)]).map Prod.fst,
      consumer < ring.registered + 1
    intro consumer hconsumer
    rw [List.map_append, List.mem_append] at hconsumer
    rcases hconsumer with hconsumer | hnew
    · exact Nat.lt_succ_of_lt (h.registered consumer hconsumer)
    · rw [List.mem_singleton.1 hnew]
      exact Nat.lt_succ_self _

/-- Rings with the same consumers are equally tidy. -/
theorem Tidy.congr {after : Ring α} (h : ring.Tidy)
    (hsublist : (after.cursors.map Prod.fst).Sublist (ring.cursors.map Prod.fst))
    (hregistered : after.registered = ring.registered) : after.Tidy where
  distinct := h.distinct.sublist hsublist
  registered consumer hconsumer := by
    rw [hregistered]
    exact h.registered consumer (hsublist.subset hconsumer)

theorem eq_of_claim {length start : Nat} {claimed : Ring α}
    (h : ring.claim length = .ok (start, claimed)) :
    start = ring.claimed ∧ claimed = { ring with claimed := ring.claimed + length } := by
  unfold claim at h
  split at h
  next => cases h
  next =>
    split at h
    next => cases h
    next =>
      obtain ⟨rfl, rfl⟩ := Prod.mk.inj (Except.ok.inj h)
      exact ⟨rfl, rfl⟩

/-- A publication moves no cursor. -/
theorem consumers_publish (ring : Ring α) (batch : List α) :
    (ring.publish batch).2.cursors = ring.cursors ∧
      (ring.publish batch).2.registered = ring.registered := by
  unfold publish resume
  split
  next => exact ⟨rfl, rfl⟩
  next =>
    split
    next => exact ⟨rfl, rfl⟩
    next =>
      split
      next hclaim =>
        obtain ⟨-, rfl⟩ := eq_of_claim hclaim
        exact ⟨rfl, rfl⟩
      next => exact ⟨rfl, rfl⟩
      next => exact ⟨rfl, rfl⟩

theorem consumers_tryPublish {after : Ring α} (h : ring.tryPublish batch = .ok after) :
    after.cursors = ring.cursors ∧ after.registered = ring.registered := by
  unfold tryPublish at h
  split at h
  next =>
    obtain rfl := Except.ok.inj h
    exact ⟨rfl, rfl⟩
  next =>
    split at h
    next => cases h
    next =>
      split at h
      next => cases h
      next hclaim =>
        obtain ⟨-, rfl⟩ := eq_of_claim hclaim
        obtain rfl := Except.ok.inj h
        exact ⟨rfl, rfl⟩

end CommitLog.Queue.Ring

namespace CommitLog.Queue.Mailboxes

variable {α : Type} {boxes after : Mailboxes α} {batch : List α} {publication : Publication α}
  {consumer other : ConsumerId} {inbox : Inbox α}

/-- No mailbox holds more than it may, nobody has two, and the next consumer has none yet. -/
structure Tidy (boxes : Mailboxes α) : Prop where
  within : ∀ consumer inbox, boxes.inbox? consumer = some inbox →
    inbox.pending.length ≤ boxes.limit
  nodup : boxes.connected.Nodup
  registered : ∀ consumer ∈ boxes.connected, consumer < boxes.registered

theorem tidy_ofLimit (limit : Nat) : (ofLimit limit : Mailboxes α).Tidy where
  within consumer inbox h := by simp [ofLimit, inbox?] at h
  nodup := List.nodup_nil
  registered := by simp [ofLimit]

/-- Taking mailboxes away leaves the others tidy. -/
theorem Tidy.sublist (h : boxes.Tidy) {connected : List ConsumerId}
    (hnodup : connected.Nodup) (hsubset : ∀ consumer ∈ connected, consumer ∈ boxes.connected) :
    ({ boxes with connected } : Mailboxes α).Tidy where
  within := h.within
  nodup := hnodup
  registered consumer hconsumer := h.registered consumer (hsubset consumer hconsumer)

theorem isFull_eq_true_iff :
    boxes.isFull consumer = true ↔
      ∃ inbox, boxes.inbox? consumer = some inbox ∧ boxes.limit ≤ inbox.pending.length := by
  unfold isFull
  cases boxes.inbox? consumer with
  | none => simp
  | some inbox => simp

theorem limit_push (boxes : Mailboxes α) (batch : List α) (consumer : ConsumerId) :
    (boxes.push batch consumer).limit = boxes.limit := by
  unfold push
  split <;> rfl

theorem registered_push (boxes : Mailboxes α) (batch : List α) (consumer : ConsumerId) :
    (boxes.push batch consumer).registered = boxes.registered := by
  unfold push
  split <;> rfl

theorem isSome_inbox?_push (boxes : Mailboxes α) (batch : List α) (consumer other : ConsumerId) :
    ((boxes.push batch consumer).inbox? other).isSome = (boxes.inbox? other).isSome := by
  rw [inbox?_push]
  split
  next => rw [Option.isSome_map]
  next => rfl

/-- A mailbox that is not full has room for one more batch. -/
theorem Tidy.push (h : boxes.Tidy) (hroom : boxes.isFull consumer = false) (batch : List α) :
    (boxes.push batch consumer).Tidy where
  within other inbox hinbox := by
    rw [limit_push]
    rw [inbox?_push] at hinbox
    split at hinbox
    next hsame =>
      subst hsame
      obtain ⟨old, hold, rfl⟩ := Option.map_eq_some_iff.1 hinbox
      have hless : ¬boxes.limit ≤ old.pending.length := by
        intro hle
        rw [isFull_eq_true_iff.2 ⟨old, hold, hle⟩] at hroom
        cases hroom
      simp only [Inbox.push, List.length_append, List.length_singleton]
      omega
    next => exact h.within other inbox hinbox
  nodup := by
    rw [push_connected]
    exact h.nodup
  registered := by
    rw [push_connected, registered_push]
    exact h.registered

theorem isFull_push_ne (hne : other ≠ consumer) :
    (boxes.push batch consumer).isFull other = boxes.isFull other := by
  unfold isFull
  rw [inbox?_push, if_neg hne, limit_push]

/-- A batch that is put into several mailboxes with room. -/
theorem Tidy.foldl_push (batch : List α) (consumers : List ConsumerId) : ∀ boxes : Mailboxes α,
    boxes.Tidy → consumers.Nodup → (∀ consumer ∈ consumers, boxes.isFull consumer = false) →
    (consumers.foldl (fun boxes consumer => boxes.push batch consumer) boxes).Tidy := by
  induction consumers with
  | nil => intro boxes h _ _; exact h
  | cons first later ih =>
    intro boxes h hnodup hroom
    obtain ⟨hfirst, hlater⟩ := List.nodup_cons.1 hnodup
    refine ih _ (h.push (hroom first List.mem_cons_self) batch) hlater fun consumer hconsumer => ?_
    have hne : consumer ≠ first := by
      rintro rfl
      exact hfirst hconsumer
    rw [isFull_push_ne hne]
    exact hroom consumer (List.mem_cons_of_mem _ hconsumer)

theorem isSome_inbox?_foldl_push (batch : List α) (consumers : List ConsumerId)
    (other : ConsumerId) : ∀ boxes : Mailboxes α,
    ((consumers.foldl (fun boxes consumer => boxes.push batch consumer) boxes).inbox?
      other).isSome = (boxes.inbox? other).isSome := by
  induction consumers with
  | nil => intro boxes; rfl
  | cons first later ih =>
    intro boxes
    rw [List.foldl_cons, ih, isSome_inbox?_push]

/-- Reading begins no more than one batch. -/
theorem length_pending_of_next? {rest : Inbox α} {value : α}
    (h : inbox.next? = some (value, rest)) : rest.pending.length ≤ inbox.pending.length := by
  have hrows : ∀ (rows : List (List α)), Inbox.nextOf rows = some (value, rest) →
      rest.pending.length < rows.length := by
    intro rows
    induction rows with
    | nil => intro h; simp [Inbox.nextOf] at h
    | cons row later ih =>
      intro h
      cases row with
      | nil =>
        have hless := ih h
        rw [List.length_cons]
        omega
      | cons first others =>
        obtain ⟨-, rfl⟩ := Prod.mk.inj (Option.some.inj h)
        exact Nat.lt_succ_self _
  have hless := hrows _ h
  rw [List.length_cons] at hless
  omega

theorem inbox?_subscribe_eq (boxes : Mailboxes α) (consumer : ConsumerId) :
    boxes.subscribe.2.inbox? consumer
      = (boxes.inbox? consumer).or
          (if consumer = boxes.registered then some ⟨[], []⟩ else none) := by
  show (boxes.inboxes ++ [(boxes.registered, (⟨[], []⟩ : Inbox α))]).lookup consumer = _
  rw [List.lookup_append, List.lookup_cons]
  by_cases hsame : consumer = boxes.registered
  · rw [if_pos hsame, hsame, beq_self_eq_true]
    rfl
  · have hdiffer : (consumer == boxes.registered) = false := by simpa using hsame
    rw [if_neg hsame, hdiffer]
    rfl

namespace Tidy

theorem subscribe (h : boxes.Tidy) : boxes.subscribe.2.Tidy where
  within consumer inbox hinbox := by
    rw [inbox?_subscribe_eq] at hinbox
    rcases Option.or_eq_some_iff.1 hinbox with hold | ⟨-, hnew⟩
    · exact h.within consumer inbox hold
    · split at hnew
      next =>
        obtain rfl := Option.some.inj hnew
        exact Nat.zero_le _
      next => cases hnew
  nodup := by
    show (if boxes.closed then boxes.connected
      else boxes.connected ++ [boxes.registered]).Nodup
    split
    next => exact h.nodup
    next =>
      rw [List.nodup_append]
      refine ⟨h.nodup, by simp, ?_⟩
      rintro consumer hconsumer _ hnew rfl
      have hlt := h.registered consumer hconsumer
      rw [List.mem_singleton.1 hnew] at hlt
      exact Nat.lt_irrefl _ hlt
  registered := by
    show ∀ consumer ∈ (if boxes.closed then boxes.connected
      else boxes.connected ++ [boxes.registered]), consumer < boxes.registered + 1
    intro consumer hconsumer
    split at hconsumer
    next => exact Nat.lt_succ_of_lt (h.registered consumer hconsumer)
    next =>
      rcases List.mem_append.1 hconsumer with hconsumer | hnew
      · exact Nat.lt_succ_of_lt (h.registered consumer hconsumer)
      · rw [List.mem_singleton.1 hnew]
        exact Nat.lt_succ_self _

theorem unsubscribe (h : boxes.Tidy) (other : ConsumerId) : (boxes.unsubscribe other).Tidy where
  within consumer inbox hinbox := by
    by_cases hsame : other = consumer
    · subst hsame
      simp [Mailboxes.unsubscribe, inbox?, lookup_filter_self] at hinbox
    · simp only [Mailboxes.unsubscribe, inbox?, lookup_filter_ne hsame] at hinbox
      exact h.within consumer inbox hinbox
  nodup := h.nodup
  registered := h.registered

theorem next (h : boxes.Tidy) (consumer : ConsumerId) : (boxes.next consumer).2.Tidy := by
  unfold Mailboxes.next
  cases hnext : (boxes.inbox? consumer).bind Inbox.next? with
  | none => exact h
  | some found =>
    obtain ⟨value, rest⟩ := found
    obtain ⟨inbox, hinbox, hread⟩ := Option.bind_eq_some_iff.1 hnext
    refine ⟨?_, h.nodup, h.registered⟩
    intro other left hleft
    by_cases hsame : consumer = other
    · subst hsame
      have hput : (putInbox consumer rest boxes.inboxes).lookup consumer = some rest :=
        lookup_putInbox hinbox
      obtain rfl := Option.some.inj (hput.symm.trans hleft)
      exact Nat.le_trans (length_pending_of_next? hread) (h.within consumer inbox hinbox)
    · have hput : (putInbox consumer rest boxes.inboxes).lookup other
          = boxes.inboxes.lookup other := lookup_putInbox_ne hsame
      exact h.within other left (hput.symm.trans hleft)

theorem prune (h : boxes.Tidy) : boxes.prune.Tidy :=
  h.sublist (h.nodup.filter _) fun _ hconsumer => (List.mem_filter.1 hconsumer).1

end Tidy

/-- A publication that goes on fills no mailbox beyond its limit, and brings in nobody. -/
theorem proceed_tidy (boxes : Mailboxes α) (publication : Publication α) (h : boxes.Tidy) :
    (boxes.proceed publication).2.Tidy ∧ ∀ other,
      ((boxes.proceed publication).2.inbox? other).isSome = (boxes.inbox? other).isSome := by
  fun_induction proceed boxes publication with
  | case1 boxes publication hlt consumer hgone ih =>
    have hperm := perm_swapRemove hlt
    refine ih (h.sublist (List.nodup_cons.1 (hperm.nodup_iff.2 h.nodup)).2 fun other hother => ?_)
    exact hperm.mem_iff.1 (List.mem_cons_of_mem _ hother)
  | case2 boxes publication hlt consumer hthere hroom ih =>
    obtain ⟨htidy, hsame⟩ := ih (h.push (by simpa using hroom) publication.batch)
    exact ⟨htidy, fun other => (hsame other).trans (isSome_inbox?_push ..)⟩
  | case3 => exact ⟨⟨h.within, h.nodup, h.registered⟩, fun _ => rfl⟩
  | case4 => exact ⟨⟨h.within, h.nodup, h.registered⟩, fun _ => rfl⟩
  | case5 => exact ⟨⟨h.within, h.nodup, h.registered⟩, fun _ => rfl⟩

theorem publish_tidy (h : boxes.Tidy) (batch : List α) :
    (boxes.publish batch).2.Tidy ∧ ∀ other,
      ((boxes.publish batch).2.inbox? other).isSome = (boxes.inbox? other).isSome := by
  unfold publish
  split
  next => exact ⟨h, fun _ => rfl⟩
  next =>
    split
    next => exact ⟨h, fun _ => rfl⟩
    next =>
      split
      next => exact ⟨h, fun _ => rfl⟩
      next => exact proceed_tidy boxes.prune { batch } h.prune

/-- A batch that is taken at once goes into mailboxes that have room. -/
theorem tryPublish_tidy (h : boxes.Tidy) (hrun : boxes.tryPublish batch = .ok after) :
    after.Tidy ∧ ∀ other, (after.inbox? other).isSome = (boxes.inbox? other).isSome := by
  unfold tryPublish at hrun
  split at hrun
  next =>
    obtain rfl := Except.ok.inj hrun
    exact ⟨h, fun _ => rfl⟩
  next =>
    split at hrun
    next => cases hrun
    next =>
      by_cases hfull : boxes.prune.connected.any boxes.prune.isFull = true
      · rw [if_pos hfull] at hrun
        cases hrun
      · rw [if_neg hfull] at hrun
        obtain rfl := Except.ok.inj hrun
        have hroom : ∀ consumer ∈ boxes.prune.connected,
            boxes.prune.isFull consumer = false := by
          intro consumer hconsumer
          refine Bool.eq_false_iff.2 fun hthis => hfull ?_
          exact List.any_eq_true.2 ⟨consumer, hconsumer, hthis⟩
        exact ⟨Tidy.foldl_push batch _ _ h.prune h.prune.nodup hroom,
          fun other => isSome_inbox?_foldl_push batch _ other boxes.prune⟩

end CommitLog.Queue.Mailboxes

namespace CommitLog.Queue

variable {α : Type} {queue : Queue α} {batch : List α} {consumer other : ConsumerId}

/-- A consumer has one place in the queue, and mailboxes hold no more than they may. -/
def Tidy : Queue α → Prop
  | ring r => r.Tidy
  | mailboxes boxes => boxes.Tidy

/-- Nobody has come, and the queue is still tidy. -/
structure Minds (queue after : Queue α) : Prop where
  tidy : after.Tidy
  isConsumer : ∀ consumer, after.IsConsumer consumer → queue.IsConsumer consumer

theorem tidy_ofFanout (fanout : Fanout) : (ofFanout fanout : Queue α).Tidy := by
  cases fanout with
  | ring capacity => exact Ring.tidy_ofCapacity capacity
  | mailbox maxPending => exact Mailboxes.tidy_ofLimit maxPending

theorem minds_self (h : queue.Tidy) : queue.Minds queue := ⟨h, fun _ hconsumer => hconsumer⟩

theorem Tidy.subscribe (h : queue.Tidy) : queue.subscribe.2.Tidy := by
  cases queue with
  | ring r => exact Ring.Tidy.subscribe h
  | mailboxes boxes => exact Mailboxes.Tidy.subscribe h

/-- Who is there behind somebody's registration was there before, or is the new one. -/
theorem isConsumer_of_subscribe (h : queue.subscribe.2.IsConsumer consumer) :
    queue.IsConsumer consumer ∨ consumer = queue.subscribe.1 := by
  cases queue with
  | ring r =>
    have hthere : consumer ∈ (r.cursors ++ [(r.registered, r.published)]).map Prod.fst :=
      isSome_lookup_iff.1 h
    rw [List.map_append, List.mem_append] at hthere
    rcases hthere with hold | hnew
    · exact Or.inl (isSome_lookup_iff.2 hold)
    · exact Or.inr (List.mem_singleton.1 hnew)
  | mailboxes boxes =>
    have hthere : (boxes.subscribe.2.inbox? consumer).isSome := h
    rw [Mailboxes.inbox?_subscribe_eq] at hthere
    by_cases hnew : consumer = boxes.registered
    · exact Or.inr hnew
    · rw [if_neg hnew, Option.or_none] at hthere
      exact Or.inl hthere

theorem minds_unsubscribe (h : queue.Tidy) (other : ConsumerId) :
    queue.Minds (queue.unsubscribe other) ∧ ¬(queue.unsubscribe other).IsConsumer other := by
  cases queue with
  | ring r =>
    have hsublist : ((r.unsubscribe other).cursors.map Prod.fst).Sublist
        (r.cursors.map Prod.fst) := List.filter_sublist.map _
    refine ⟨⟨Ring.Tidy.congr h hsublist rfl, fun consumer hconsumer => ?_⟩, fun hconsumer => ?_⟩
    · exact isSome_lookup_iff.2 (hsublist.subset (isSome_lookup_iff.1 hconsumer))
    · have hgone : (r.unsubscribe other).cursors.lookup other = none :=
        lookup_filter_self other r.cursors
      have hthere : ((r.unsubscribe other).cursors.lookup other).isSome := hconsumer
      rw [hgone] at hthere
      cases hthere
  | mailboxes boxes =>
    have hgone : (boxes.unsubscribe other).inbox? other = none :=
      lookup_filter_self other boxes.inboxes
    refine ⟨⟨Mailboxes.Tidy.unsubscribe h other, fun consumer hconsumer => ?_⟩,
      fun hconsumer => ?_⟩
    · by_cases hsame : other = consumer
      · subst hsame
        have hthere : ((boxes.unsubscribe other).inbox? other).isSome := hconsumer
        rw [hgone] at hthere
        cases hthere
      · have hkept : (boxes.unsubscribe other).inbox? consumer = boxes.inbox? consumer :=
          lookup_filter_ne hsame
        have hthere : ((boxes.unsubscribe other).inbox? consumer).isSome := hconsumer
        rw [hkept] at hthere
        exact hthere
    · have hthere : ((boxes.unsubscribe other).inbox? other).isSome := hconsumer
      rw [hgone] at hthere
      cases hthere

theorem minds_next (h : queue.Tidy) (consumer : ConsumerId) :
    queue.Minds (queue.next consumer).2 := by
  cases queue with
  | ring r =>
    have hsame : (r.next consumer).2.cursors.map Prod.fst = r.cursors.map Prod.fst ∧
        (r.next consumer).2.registered = r.registered := by
      simp only [Ring.next]
      split
      next => exact ⟨rfl, rfl⟩
      next =>
        split
        next => exact ⟨rfl, rfl⟩
        next => split <;> exact ⟨Ring.map_fst_advanceCursor consumer r.cursors, rfl⟩
    refine ⟨Ring.Tidy.congr h (by rw [hsame.1]) hsame.2, fun other hother => ?_⟩
    have hmem : other ∈ (r.next consumer).2.cursors.map Prod.fst := isSome_lookup_iff.1 hother
    rw [hsame.1] at hmem
    exact isSome_lookup_iff.2 hmem
  | mailboxes boxes =>
    refine ⟨Mailboxes.Tidy.next h consumer, fun other hother => ?_⟩
    by_cases hsame : consumer = other
    · subst hsame
      have hthere : ((boxes.next consumer).2.inbox? consumer).isSome := hother
      unfold Mailboxes.next at hthere
      cases hnext : (boxes.inbox? consumer).bind Inbox.next? with
      | none =>
        rw [hnext] at hthere
        exact hthere
      | some found =>
        obtain ⟨inbox, hinbox, -⟩ := Option.bind_eq_some_iff.1 hnext
        exact Option.isSome_iff_exists.2 ⟨inbox, hinbox⟩
    · have hthere : ((boxes.next consumer).2.inbox? other).isSome := hother
      rw [Mailboxes.inbox?_next_ne boxes hsame] at hthere
      exact hthere

/-- Rings with the same consumers are equally tidy. -/
theorem minds_ring {r after : Ring α} (h : (ring r).Tidy) (hcursors : after.cursors = r.cursors)
    (hregistered : after.registered = r.registered) : (ring r).Minds (ring after) where
  tidy := Ring.Tidy.congr h (by rw [hcursors]) hregistered
  isConsumer other hother := by
    have hthere : (after.cursors.lookup other).isSome := hother
    rw [hcursors] at hthere
    exact hthere

theorem minds_mailboxes {boxes after : Mailboxes α} (h : after.Tidy)
    (hsame : ∀ other, (after.inbox? other).isSome = (boxes.inbox? other).isSome) :
    (mailboxes boxes).Minds (mailboxes after) where
  tidy := h
  isConsumer other hother := by
    have hthere : (after.inbox? other).isSome := hother
    rw [hsame] at hthere
    exact hthere

theorem minds_publish (h : queue.Tidy) (batch : List α) :
    queue.Minds (queue.publish batch).2 := by
  cases queue with
  | ring r =>
    obtain ⟨hcursors, hregistered⟩ := r.consumers_publish batch
    exact minds_ring h hcursors hregistered
  | mailboxes boxes =>
    obtain ⟨htidy, hsame⟩ := Mailboxes.publish_tidy h batch
    exact minds_mailboxes htidy hsame

theorem minds_tried (h : queue.Tidy) (batch : List α) : queue.Minds (queue.tried batch).2 := by
  cases queue with
  | ring r =>
    cases hrun : r.tryPublish batch with
    | error rejected =>
      have hkept : (ring r).tried batch = (.error rejected, ring r) := by
        simp only [tried, tryPublish, hrun, Except.map_error]
      rw [hkept]
      exact minds_self h
    | ok after =>
      obtain ⟨hcursors, hregistered⟩ := Ring.consumers_tryPublish hrun
      have htaken : (ring r).tried batch = (.ok (), ring after) := by
        simp only [tried, tryPublish, hrun, Except.map_ok]
      rw [htaken]
      exact minds_ring h hcursors hregistered
  | mailboxes boxes =>
    cases hrun : boxes.tryPublish batch with
    | error rejected =>
      have hkept : (mailboxes boxes).tried batch = (.error rejected, mailboxes boxes) := by
        simp only [tried, tryPublish, hrun, Except.map_error]
      rw [hkept]
      exact minds_self h
    | ok after =>
      obtain ⟨htidy, hsame⟩ := Mailboxes.tryPublish_tidy h hrun
      have htaken : (mailboxes boxes).tried batch = (.ok (), mailboxes after) := by
        simp only [tried, tryPublish, hrun, Except.map_ok]
      rw [htaken]
      exact minds_mailboxes htidy hsame

theorem minds_close (h : queue.Tidy) : queue.Minds queue.close := by
  cases queue with
  | ring r => exact ⟨Ring.Tidy.congr h (List.Sublist.refl _) rfl, fun _ hconsumer => hconsumer⟩
  | mailboxes boxes =>
    have hboxes : boxes.Tidy := h
    have hclosed : boxes.close.Tidy := ⟨hboxes.within, List.nodup_nil, by simp [Mailboxes.close,
      Mailboxes.disconnect]⟩
    exact ⟨hclosed, fun _ hconsumer => hconsumer⟩

end CommitLog.Queue
