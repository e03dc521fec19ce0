import CommitLog.Proofs.Queue.Refusing.Whole

/-!
# Room for a batch that waits

A batch waits as long as some consumer is too far behind for it. When every consumer has seen
everything, a batch that is not too large finds room: `resume_of_drained`. For a ring that is what
its gate says. A mailbox holds batches, so one that is read to its end is empty only if no batch
without values waits in it (`Filled`): such a batch would take up room, and nobody would ever be
given anything of it.
-/

namespace CommitLog.Queue.Mailboxes

variable {α : Type} {boxes : Mailboxes α} {batch : List α} {publication rest : Publication α}
  {consumer other : ConsumerId} {inbox left : Inbox α} {value : α}

/-- No batch without values waits in a mailbox. -/
def Filled (boxes : Mailboxes α) : Prop :=
  ∀ consumer inbox, boxes.inbox? consumer = some inbox → [] ∉ inbox.pending

theorem filled_ofLimit (limit : Nat) : (ofLimit limit : Mailboxes α).Filled := by
  intro consumer inbox hinbox
  simp [ofLimit, inbox?] at hinbox

theorem pending_subset_of_nextOf {rows : List (List α)}
    (h : Inbox.nextOf rows = some (value, left)) : left.pending ⊆ rows.tail := by
  induction rows with
  | nil => simp [Inbox.nextOf] at h
  | cons row later ih =>
    cases row with
    | nil => exact fun batch hbatch => List.mem_of_mem_tail (ih h hbatch)
    | cons first others =>
      obtain ⟨-, rfl⟩ := Prod.mk.inj (Option.some.inj h)
      exact List.Subset.refl _

/-- Reading leaves no batch in a mailbox that was not there. -/
theorem pending_subset_of_next? (h : inbox.next? = some (value, left)) :
    left.pending ⊆ inbox.pending := pending_subset_of_nextOf h

namespace Filled

variable (h : boxes.Filled)

include h

theorem subscribe : boxes.subscribe.2.Filled := by
  intro consumer inbox hinbox
  rw [inbox?_subscribe_eq] at hinbox
  rcases Option.or_eq_some_iff.1 hinbox with hold | ⟨-, hnew⟩
  · exact h consumer inbox hold
  · split at hnew
    next =>
      obtain rfl := Option.some.inj hnew
      exact List.not_mem_nil
    next => cases hnew

theorem unsubscribe (other : ConsumerId) : (boxes.unsubscribe other).Filled := by
  intro consumer inbox hinbox
  by_cases hsame : other = consumer
  · subst hsame
    simp [Mailboxes.unsubscribe, inbox?, lookup_filter_self] at hinbox
  · simp only [Mailboxes.unsubscribe, inbox?, lookup_filter_ne hsame] at hinbox
    exact h consumer inbox hinbox

theorem next (consumer : ConsumerId) : (boxes.next consumer).2.Filled := by
  unfold Mailboxes.next
  cases hnext : (boxes.inbox? consumer).bind Inbox.next? with
  | none => exact h
  | some found =>
    obtain ⟨value, left⟩ := found
    obtain ⟨inbox, hinbox, hread⟩ := Option.bind_eq_some_iff.1 hnext
    intro other kept hkept
    by_cases hsame : consumer = other
    · subst hsame
      have hput : (putInbox consumer left boxes.inboxes).lookup consumer = some left :=
        lookup_putInbox hinbox
      obtain rfl := Option.some.inj (hput.symm.trans hkept)
      exact fun hempty => h consumer inbox hinbox (pending_subset_of_next? hread hempty)
    · have hput : (putInbox consumer left boxes.inboxes).lookup other
          = boxes.inboxes.lookup other := lookup_putInbox_ne hsame
      exact h other kept (hput.symm.trans hkept)

theorem push (hbatch : batch ≠ []) (consumer : ConsumerId) :
    (boxes.push batch consumer).Filled := by
  intro other inbox hinbox
  rw [inbox?_push] at hinbox
  split at hinbox
  next hsame =>
    obtain ⟨old, hold, rfl⟩ := Option.map_eq_some_iff.1 hinbox
    intro hempty
    rcases List.mem_append.1 hempty with hempty | hempty
    · exact h other old hold hempty
    · exact hbatch (List.mem_singleton.1 hempty).symm
  next => exact h other inbox hinbox

end Filled

theorem proceed_filled (boxes : Mailboxes α) (publication : Publication α) (h : boxes.Filled)
    (hbatch : publication.batch ≠ []) : (boxes.proceed publication).2.Filled := by
  fun_induction proceed boxes publication with
  | case1 boxes publication hlt consumer hgone ih => exact ih h hbatch
  | case2 boxes publication hlt consumer hthere hroom ih => exact ih (h.push hbatch consumer) hbatch
  | case3 => exact h
  | case4 => exact h
  | case5 => exact h

/-- A publication that waits keeps its batch. -/
theorem batch_of_proceed (boxes : Mailboxes α) (publication : Publication α)
    (h : (boxes.proceed publication).1 = .waiting rest) : rest.batch = publication.batch := by
  fun_induction proceed boxes publication with
  | case1 boxes publication hlt consumer hgone ih => exact ih h
  | case2 boxes publication hlt consumer hthere hroom ih => exact ih h
  | case3 => cases h
  | case4 =>
    obtain rfl := Progress.waiting.inj h
    rfl
  | case5 => cases h

theorem publish_filled (h : boxes.Filled) (hbatch : batch ≠ []) :
    (boxes.publish batch).2.Filled := by
  unfold publish
  split
  next => exact h
  next =>
    split
    next => exact h
    next =>
      split
      next => exact h
      next => exact proceed_filled boxes.prune { batch } h hbatch

theorem batch_of_publish (h : (boxes.publish batch).1 = .waiting rest) : rest.batch = batch := by
  unfold publish at h
  split at h
  next => cases h
  next =>
    split at h
    next =>
      obtain rfl := Progress.waiting.inj h
      rfl
    next =>
      split at h
      next => cases h
      next => exact batch_of_proceed boxes.prune { batch } h

/-- The places behind a consumer that is gone are those that were there, but for its own. -/
theorem perm_drop_swapRemove {xs : List ConsumerId} {index : Nat} (h : index < xs.length) :
    (xs[index] :: (swapRemove xs index).drop index).Perm (xs.drop index) := by
  have hsplit : swapRemove xs index = xs.take index ++ (swapRemove xs index).drop index := by
    rw [← take_swapRemove h, List.take_append_drop]
  refine (List.perm_append_left_iff (xs.take index)).1 ?_
  rw [List.take_append_drop]
  refine List.perm_middle.trans ?_
  rw [← hsplit]
  exact perm_swapRemove h

/-- **A publication comes to its end exactly if there is room in every mailbox that is left.** -/
theorem proceed_eq_published_iff (boxes : Mailboxes α) (publication : Publication α)
    (hnodup : boxes.connected.Nodup) :
    (boxes.proceed publication).1 = .published ↔
      ∀ consumer ∈ boxes.connected.drop publication.served, boxes.isFull consumer = false := by
  fun_induction proceed boxes publication with
  | case1 boxes publication hlt consumer hgone ih =>
    have hperm := perm_drop_swapRemove hlt
    have hnodup' := (List.nodup_cons.1 ((perm_swapRemove hlt).nodup_iff.2 hnodup)).2
    have hfree : boxes.isFull consumer = false := by
      simp only [isFull, Option.isNone_iff_eq_none.1 hgone]
    rw [ih hnodup']
    constructor
    · intro hroom other hother
      rcases List.mem_cons.1 (hperm.mem_iff.2 hother) with rfl | hlater
      · exact hfree
      · exact hroom other hlater
    · intro hroom other hother
      exact hroom other (hperm.mem_iff.1 (List.mem_cons_of_mem _ hother))
  | case2 boxes publication hlt consumer hthere hfree ih =>
    rw [ih (by rw [push_connected]; exact hnodup), push_connected, List.drop_eq_getElem_cons hlt]
    have hnew : consumer ∉ boxes.connected.drop (publication.served + 1) := by
      rw [← List.take_append_drop publication.served boxes.connected,
        List.drop_eq_getElem_cons hlt] at hnodup
      exact (List.nodup_cons.1 (List.nodup_append.1 hnodup).2.1).1
    have hothers : ∀ other ∈ boxes.connected.drop (publication.served + 1),
        (boxes.push publication.batch consumer).isFull other = boxes.isFull other := by
      rintro other hother
      refine isFull_push_ne ?_
      rintro rfl
      exact hnew hother
    rw [List.forall_mem_cons]
    constructor
    · intro hroom
      refine ⟨by simpa using hfree, fun other hother => ?_⟩
      rw [← hothers other hother]
      exact hroom other hother
    · rintro ⟨-, hroom⟩ other hother
      rw [hothers other hother]
      exact hroom other hother
  | case3 boxes publication hlt consumer hthere hfull hclosed =>
    rw [List.drop_eq_getElem_cons hlt, List.forall_mem_cons]
    simp [show boxes.isFull boxes.connected[publication.served] = true by simpa using hfull]
  | case4 boxes publication hlt consumer hthere hfull hopen =>
    rw [List.drop_eq_getElem_cons hlt, List.forall_mem_cons]
    simp [show boxes.isFull boxes.connected[publication.served] = true by simpa using hfull]
  | case5 boxes publication hend =>
    rw [List.drop_eq_nil_of_le (Nat.le_of_not_lt hend)]
    simp

/-- Going on with a publication takes nothing away that a consumer has not seen. -/
theorem prefix_unread_proceed (boxes : Mailboxes α) (publication : Publication α)
    (consumer : ConsumerId) :
    boxes.unread consumer <+: (boxes.proceed publication).2.unread consumer := by
  fun_induction proceed boxes publication with
  | case1 boxes publication hlt next hgone ih => exact ih
  | case2 boxes publication hlt next hthere hroom ih =>
    refine List.IsPrefix.trans ?_ ih
    by_cases hsame : consumer = next
    · rw [hsame, unread_push_self]
      · exact List.prefix_append _ _
      · rw [Option.isSome_iff_ne_none]
        exact fun hnone => hthere (Option.isNone_iff_eq_none.2 hnone)
    · simp only [unread_push_ne hsame, List.prefix_refl]
  | case3 => exact List.prefix_refl _
  | case4 => exact List.prefix_refl _
  | case5 => exact List.prefix_refl _

/-- A consumer that has seen everything has room in its mailbox. -/
theorem isFull_of_drained (h : boxes.Filled) (hdrained : boxes.unread consumer = []) :
    boxes.isFull consumer = false := by
  rw [Bool.eq_false_iff]
  intro hfull
  obtain ⟨inbox, hinbox, hle⟩ := isFull_eq_true_iff.1 hfull
  have hpos := boxes.limit_pos
  obtain ⟨first, hfirst⟩ := List.exists_mem_of_length_pos (Nat.lt_of_lt_of_le hpos hle)
  simp only [unread, hinbox, Inbox.unread, List.append_eq_nil_iff,
    List.flatten_eq_nil_iff] at hdrained
  have hempty := hdrained.2 first hfirst
  rw [hempty] at hfirst
  exact h consumer inbox hinbox hfirst

end CommitLog.Queue.Mailboxes

namespace CommitLog.Queue

variable {α : Type} {queue after : Queue α} {batch : List α} {publication rest : Publication α}
  {consumer other : ConsumerId}

/-- Consumers that go on reading come to an end of what is there, and then there is room. -/
structure Drainable (queue : Queue α) : Prop where
  tidy : queue.Tidy
  filled : ∀ boxes, queue = mailboxes boxes → boxes.Filled

theorem drainable_ring {r : Ring α} (h : (ring r).Tidy) : (ring r).Drainable where
  tidy := h
  filled := by rintro _ ⟨⟩

theorem drainable_mailboxes {boxes : Mailboxes α} (h : boxes.Tidy) (hfilled : boxes.Filled) :
    (mailboxes boxes).Drainable where
  tidy := h
  filled := by
    rintro _ ⟨⟩
    exact hfilled

theorem drainable_ofFanout (fanout : Fanout) : (ofFanout fanout : Queue α).Drainable := by
  cases fanout with
  | ring capacity => exact drainable_ring (Ring.tidy_ofCapacity capacity)
  | mailbox maxPending =>
    exact drainable_mailboxes (Mailboxes.tidy_ofLimit maxPending)
      (Mailboxes.filled_ofLimit maxPending)

/-- Going on with a publication brings in nobody. -/
theorem minds_resume (h : queue.Tidy) (publication : Publication α) :
    queue.Minds (queue.resume publication).2 := by
  cases queue with
  | ring r =>
    simp only [resume, Ring.resume]
    split
    next hclaim =>
      obtain ⟨-, rfl⟩ := Ring.eq_of_claim hclaim
      exact minds_ring h rfl rfl
    next => exact minds_self h
    next => exact minds_self h
  | mailboxes boxes =>
    simp only [resume, Mailboxes.resume]
    split
    next =>
      obtain ⟨htidy, hsame⟩ := Mailboxes.publish_tidy h publication.batch
      exact minds_mailboxes htidy hsame
    next =>
      obtain ⟨htidy, hsame⟩ := Mailboxes.proceed_tidy boxes publication h
      exact minds_mailboxes htidy hsame

/-- A publication that waits still has its batch to hand over. -/
theorem batch_of_resume (h : queue.resume publication = (.waiting rest, after)) :
    rest.batch = publication.batch := by
  have hwaiting := congrArg Prod.fst h
  cases queue with
  | ring r =>
    simp only [resume, Ring.resume] at hwaiting
    split at hwaiting
    next => cases hwaiting
    next =>
      obtain rfl := Progress.waiting.inj hwaiting
      rfl
    next => cases hwaiting
  | mailboxes boxes =>
    simp only [resume, Mailboxes.resume] at hwaiting
    split at hwaiting
    next => exact Mailboxes.batch_of_publish hwaiting
    next => exact Mailboxes.batch_of_proceed boxes publication hwaiting

theorem batch_of_publish (h : queue.publish batch = (.waiting rest, after)) :
    rest.batch = batch := by
  have hwaiting := congrArg Prod.fst h
  cases queue with
  | ring r =>
    simp only [publish, Ring.publish] at hwaiting
    split at hwaiting
    next => cases hwaiting
    next =>
      split at hwaiting
      next => cases hwaiting
      next =>
        have hresumed : (ring r).resume { batch } = (.waiting rest, ring (r.resume { batch }).2) :=
          Prod.ext hwaiting rfl
        exact batch_of_resume hresumed
  | mailboxes boxes => exact Mailboxes.batch_of_publish hwaiting

/-- While a publication waits nothing goes away that a consumer has not seen. -/
theorem prefix_unread_of_waiting (hresumable : queue.Resumable publication)
    (h : queue.resume publication = (.waiting rest, after)) (consumer : ConsumerId) :
    queue.unread consumer <+: after.unread consumer := by
  cases queue with
  | ring r =>
    simp only [resume, Ring.resume] at h
    split at h
    next => cases h
    next =>
      obtain ⟨-, rfl⟩ := h
      exact List.prefix_refl _
    next => cases h
  | mailboxes boxes =>
    obtain ⟨hline, -⟩ := hresumable
    simp only [resume, Mailboxes.resume, hline, Bool.false_eq_true, if_false] at h
    obtain rfl : mailboxes (boxes.proceed publication).2 = after := congrArg Prod.snd h
    exact Mailboxes.prefix_unread_proceed boxes publication consumer

namespace Drainable

variable (h : queue.Drainable)

include h

theorem subscribe : queue.subscribe.2.Drainable := by
  have htidy := h.tidy.subscribe
  cases queue with
  | ring r => exact drainable_ring htidy
  | mailboxes boxes => exact drainable_mailboxes htidy (h.filled boxes rfl).subscribe

theorem unsubscribe (other : ConsumerId) : (queue.unsubscribe other).Drainable := by
  have htidy := (minds_unsubscribe h.tidy other).1.tidy
  cases queue with
  | ring r => exact drainable_ring htidy
  | mailboxes boxes => exact drainable_mailboxes htidy ((h.filled boxes rfl).unsubscribe other)

theorem next (consumer : ConsumerId) : (queue.next consumer).2.Drainable := by
  have htidy := (minds_next h.tidy consumer).tidy
  cases queue with
  | ring r => exact drainable_ring htidy
  | mailboxes boxes => exact drainable_mailboxes htidy ((h.filled boxes rfl).next consumer)

theorem publish (hbatch : batch ≠ []) : (queue.publish batch).2.Drainable := by
  have htidy := (minds_publish h.tidy batch).tidy
  cases queue with
  | ring r => exact drainable_ring htidy
  | mailboxes boxes =>
    exact drainable_mailboxes htidy (Mailboxes.publish_filled (h.filled boxes rfl) hbatch)

theorem resume (hbatch : publication.batch ≠ []) : (queue.resume publication).2.Drainable := by
  have htidy := (minds_resume h.tidy publication).tidy
  cases queue with
  | ring r => exact drainable_ring htidy
  | mailboxes boxes =>
    refine drainable_mailboxes htidy ?_
    have hfilled := h.filled boxes rfl
    unfold Mailboxes.resume
    split
    next => exact Mailboxes.publish_filled hfilled hbatch
    next => exact Mailboxes.proceed_filled boxes publication hfilled hbatch

end Drainable

/-- **When every consumer has seen everything, a batch that waits finds room.** -/
theorem resume_of_drained (h : queue.Sound) (hdrainable : queue.Drainable)
    (hresumable : queue.Resumable publication) (htakes : queue.Takes publication.batch.length)
    (hdrained : ∀ consumer, queue.IsConsumer consumer → queue.unread consumer = []) :
    (queue.resume publication).1 = .published := by
  cases queue with
  | ring r =>
    obtain ⟨values, h⟩ := h
    have hfits : publication.batch.length ≤ r.capacity := htakes _ rfl
    have hroom : ¬r.capacity < r.claimed + publication.batch.length - r.gate := by
      rw [h.short_iff hdrainable.tidy hfits]
      rintro ⟨consumer, hconsumer, hshort⟩
      have hnone : r.unread consumer = [] := hdrained consumer hconsumer
      rw [hnone, List.length_nil] at hshort
      omega
    have hopen : ¬r.closed = true := by
      rw [h.isOpen]
      exact Bool.false_ne_true
    simp only [resume, Ring.resume, Ring.claim, if_neg hopen, if_neg hroom]
  | mailboxes boxes =>
    obtain ⟨hline, -⟩ := hresumable
    have hfilled := hdrainable.filled boxes rfl
    simp only [resume, Mailboxes.resume, hline, Bool.false_eq_true, if_false]
    rw [Mailboxes.proceed_eq_published_iff boxes publication (Mailboxes.Sound.nodup h)]
    intro consumer _
    cases hinbox : boxes.inbox? consumer with
    | none => simp only [Mailboxes.isFull, hinbox]
    | some inbox =>
      have hthere : (mailboxes boxes).IsConsumer consumer :=
        Option.isSome_iff_exists.2 ⟨inbox, hinbox⟩
      exact Mailboxes.isFull_of_drained hfilled (hdrained consumer hthere)

end CommitLog.Queue
