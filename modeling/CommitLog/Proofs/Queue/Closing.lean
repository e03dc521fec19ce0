import CommitLog.Proofs.Queue.Handing
import CommitLog.Queue.Session

/-!
# Offers to a queue, and its end

A batch that is offered to an open queue comes to all consumers or is refused for want of room; what
is refused leaves no trace (`Offered`). A queue that has been closed takes no batch any more, and is
the open queue in all other respects: whoever registers, goes or reads does so as before, only that
the end of what there is to read is the end of everything (`next_close`).
-/

namespace CommitLog.Queue

variable {α : Type} {queue after : Queue α} {batch : List α} {consumer other : ConsumerId}

/-- There was no room, or there can never be. -/
def Error.IsShort : Error → Prop
  | .full => True
  | .batchTooLarge _ _ => True
  | _ => False

instance : DecidablePred Error.IsShort
  | .full | .batchTooLarge _ _ => isTrue trivial
  | .closed | .transactionFull _ => isFalse id

/-- A batch that was offered to an open queue has come to all consumers, or to none. -/
inductive Offered (queue : Queue α) (batch : List α) :
    Except (Rejected α) Unit → Queue α → Prop where
  | accepted {after : Queue α} (idle : after.isBusy = false)
      (hands : queue.Hands (fun _ => batch) (fun _ => []) after) : Offered queue batch (.ok ()) after
  | refused {reason : Error} (ne : batch ≠ []) (short : reason.IsShort) :
      Offered queue batch (.error ⟨reason, batch⟩) queue

/-- Nothing is as good as published. -/
theorem offered_nil (h : queue.Sound) (hidle : queue.isBusy = false) :
    queue.Offered [] (.ok ()) queue :=
  .accepted hidle ⟨h, rfl, fun _ hconsumer => hconsumer, fun _ _ => rfl⟩

/-- A queue has nobody registered under the name that it gives next. -/
theorem not_isConsumer_subscribe (h : queue.Sound) : ¬queue.IsConsumer queue.subscribe.1 := by
  cases queue with
  | ring r =>
    obtain ⟨values, h⟩ := h
    intro hconsumer
    obtain ⟨cursor, hcursor⟩ := Option.isSome_iff_exists.1 hconsumer
    exact absurd (h.registered _ (mem_of_lookup hcursor)) (Nat.lt_irrefl _)
  | mailboxes boxes =>
    intro hconsumer
    have hnone : boxes.inbox? boxes.registered = none := Mailboxes.Sound.inbox?_registered h
    have hsome : (boxes.inbox? boxes.registered).isSome := hconsumer
    rw [hnone] at hsome
    simp at hsome

end CommitLog.Queue

namespace CommitLog.Queue.Ring

variable {α : Type} {ring : Ring α} {values batch : List α}

theorem refusal?_of_lt (h : ring.closed = false) (hlength : ring.capacity < batch.length) :
    ring.refusal? batch.length = some (.batchTooLarge batch.length ring.capacity) := by
  unfold refusal?
  rw [h, if_neg Bool.false_ne_true, if_pos hlength]

theorem refusal?_of_le (h : ring.closed = false) (hlength : batch.length ≤ ring.capacity) :
    ring.refusal? batch.length = none := by
  unfold refusal?
  rw [h, if_neg Bool.false_ne_true, if_neg (Nat.not_lt.2 hlength)]

/-- A batch that the ring can hold is published at once, or there is no room for it. -/
theorem tryPublish_cases (h : ring.Records values) (hbatch : batch ≠ [])
    (hlength : batch.length ≤ ring.capacity) :
    (∃ after, ring.tryPublish batch = .ok after ∧ after.Records (values ++ batch) ∧
        after.cursors = ring.cursors ∧ after.capacity = ring.capacity) ∨
      ring.tryPublish batch = .error ⟨.full, batch⟩ := by
  have hopen : ¬ring.closed = true := by
    rw [h.isOpen]
    exact Bool.false_ne_true
  unfold tryPublish claim
  rw [if_neg (by simpa using hbatch), refusal?_of_le h.isOpen hlength]
  simp only [if_neg hopen]
  by_cases hroom : ring.capacity < ring.claimed + batch.length - ring.gate
  · rw [if_pos hroom]
    exact Or.inr rfl
  · rw [if_neg hroom]
    exact Or.inl ⟨_, rfl, h.fillAndPublish (Nat.le_of_not_lt hroom), rfl, size_fill ..⟩

end CommitLog.Queue.Ring

namespace CommitLog.Queue.Mailboxes

variable {α : Type} {boxes : Mailboxes α} {batch : List α} {consumer : ConsumerId}

/-- A batch that is put into several mailboxes comes to the consumers of just these. -/
theorem foldl_push (batch : List α) (consumers : List ConsumerId) : ∀ (boxes : Mailboxes α),
    consumers.Nodup → boxes.Sound →
    let after := consumers.foldl (fun boxes consumer => boxes.push batch consumer) boxes
    after.Sound ∧ after.busy = boxes.busy ∧
      ∀ consumer, (boxes.inbox? consumer).isSome →
        (after.inbox? consumer).isSome ∧ after.unread consumer
          = if consumer ∈ consumers then boxes.unread consumer ++ batch
            else boxes.unread consumer := by
  induction consumers with
  | nil =>
    intro boxes _ h
    exact ⟨h, rfl, fun consumer hconsumer => ⟨hconsumer, by simp⟩⟩
  | cons first later ih =>
    intro boxes hnodup h
    obtain ⟨hfirst, hlater⟩ := List.nodup_cons.1 hnodup
    obtain ⟨hsound, hbusy, hall⟩ := ih (boxes.push batch first) hlater (h.push batch first)
    have hsame : (boxes.push batch first).busy = boxes.busy := by
      unfold push
      split <;> rfl
    refine ⟨hsound, hbusy.trans hsame, fun consumer hconsumer => ?_⟩
    have hkept : ((boxes.push batch first).inbox? consumer).isSome := by
      rw [inbox?_push]
      split
      next => rwa [Option.isSome_map]
      next => exact hconsumer
    obtain ⟨hthere, hunread⟩ := hall consumer hkept
    refine ⟨hthere, hunread.trans ?_⟩
    by_cases hself : consumer = first
    · subst hself
      rw [if_neg hfirst, if_pos List.mem_cons_self, unread_push_self hconsumer]
    · simp only [List.mem_cons, hself, false_or, unread_push_ne hself]

/-- A batch for which there is room in every mailbox comes to all consumers at once. -/
theorem tryPublish_cases (h : boxes.Sound) (hidle : boxes.busy = false) (hbatch : batch ≠ []) :
    (∃ after, boxes.tryPublish batch = .ok after ∧ after.busy = false ∧
        boxes.Hands (fun _ => batch) (fun _ => []) after) ∨
      boxes.tryPublish batch = .error ⟨.full, batch⟩ := by
  unfold tryPublish
  rw [if_neg (by simpa using hbatch), h.isOpen, if_neg Bool.false_ne_true]
  by_cases hfull : boxes.prune.connected.any boxes.prune.isFull = true
  · exact Or.inr (if_pos hfull)
  · obtain ⟨hsound, hbusy, hall⟩ :=
      foldl_push batch boxes.prune.connected boxes.prune h.prune.nodup h.prune
    refine Or.inl ⟨_, if_neg hfull, hbusy.trans hidle, hsound, ?_, ?_⟩
    · intro consumer hconsumer
      exact (hall consumer hconsumer).1
    · intro consumer hconsumer
      rw [(hall consumer hconsumer).2, if_pos (h.prune.connected consumer hconsumer),
        List.append_nil]
      rfl

end CommitLog.Queue.Mailboxes

namespace CommitLog.Queue

variable {α : Type} {queue after : Queue α} {batch : List α} {consumer other : ConsumerId}

/-! ## Publishing without waiting -/

/-- Only a ring can be too small for a batch. -/
theorem exists_ring_of_not_takes (h : ¬queue.Takes batch.length) :
    ∃ r : Ring α, queue = ring r ∧ r.capacity < batch.length := by
  cases queue with
  | mailboxes boxes => exact absurd (fun capacity hcapacity => by simp [capacity?] at hcapacity) h
  | ring r =>
    refine ⟨r, rfl, Nat.lt_of_not_le fun hle => h fun capacity hcapacity => ?_⟩
    obtain rfl := Option.some.inj hcapacity
    exact hle

/-- A publication that does not wait has been accepted or refused. -/
theorem publish_offered (h : queue.Sound) (hidle : queue.isBusy = false)
    {progress : Progress α} {result : Except (Rejected α) Unit}
    (hrun : queue.publish batch = (progress, after)) (hended : progress.ended? = some result) :
    queue.Offered batch result after := by
  by_cases hbatch : batch = []
  · subst hbatch
    have hnil : queue.publish [] = (.published, queue) := by cases queue <;> rfl
    obtain ⟨rfl, rfl⟩ := Prod.mk.inj (hrun.symm.trans hnil)
    obtain rfl := Option.some.inj hended
    exact offered_nil h hidle
  by_cases htakes : queue.Takes batch.length
  · have hhanded := publish_handed h hidle hbatch htakes hrun
    cases hhanded with
    | published hquiet hands =>
      obtain rfl := Option.some.inj hended
      exact .accepted hquiet hands
    | waiting => simp [Progress.ended?] at hended
  · obtain ⟨r, rfl, hlength⟩ := exists_ring_of_not_takes htakes
    have hrefused : (ring r).publish batch
        = (.rejected ⟨.batchTooLarge batch.length r.capacity, batch⟩, ring r) := by
      obtain ⟨values, hvalues⟩ := h
      simp only [publish, Ring.publish, Ring.refusal?_of_lt hvalues.isOpen hlength]
      rw [if_neg (by simpa using hbatch)]
    obtain ⟨rfl, rfl⟩ := Prod.mk.inj (hrun.symm.trans hrefused)
    obtain rfl := Option.some.inj hended
    exact .refused hbatch trivial

/-- What the attempt to publish a batch comes to: the answer, and the queue afterwards. -/
def tried (queue : Queue α) (batch : List α) : Except (Rejected α) Unit × Queue α :=
  match queue.tryPublish batch with
  | .ok after => (.ok (), after)
  | .error rejected => (.error rejected, queue)

/-- An attempt to publish has been accepted or refused. -/
theorem tried_offered (h : queue.Sound) (hidle : queue.isBusy = false) :
    queue.Offered batch (queue.tried batch).1 (queue.tried batch).2 := by
  by_cases hbatch : batch = []
  · subst hbatch
    have hnil : queue.tried [] = (.ok (), queue) := by cases queue <;> rfl
    rw [hnil]
    exact offered_nil h hidle
  have hrefused : ∀ reason : Error, reason.IsShort →
      queue.tryPublish batch = .error ⟨reason, batch⟩ →
      queue.Offered batch (queue.tried batch).1 (queue.tried batch).2 := by
    intro reason hshort hrun
    simp only [tried, hrun]
    exact .refused hbatch hshort
  have haccepted : ∀ after : Queue α, after.isBusy = false →
      queue.Hands (fun _ => batch) (fun _ => []) after → queue.tryPublish batch = .ok after →
      queue.Offered batch (queue.tried batch).1 (queue.tried batch).2 := by
    intro after hquiet hands hrun
    simp only [tried, hrun]
    exact .accepted hquiet hands
  cases queue with
  | mailboxes boxes =>
    rcases Mailboxes.tryPublish_cases h hidle hbatch with ⟨after, hrun, hbusy, hands⟩ | hrun
    · exact haccepted (mailboxes after) hbusy ⟨hands.sound, rfl, hands.inbox, hands.unread⟩
        (by rw [tryPublish, hrun]; rfl)
    · exact hrefused .full trivial (by rw [tryPublish, hrun]; rfl)
  | ring r =>
    obtain ⟨values, hvalues⟩ := h
    rcases Nat.lt_or_ge r.capacity batch.length with hlength | hlength
    · refine hrefused (.batchTooLarge batch.length r.capacity) trivial ?_
      rw [tryPublish, Ring.tryPublish, if_neg (by simpa using hbatch),
        Ring.refusal?_of_lt hvalues.isOpen hlength]
      rfl
    · rcases Ring.tryPublish_cases hvalues hbatch hlength with
        ⟨after, hrun, hafter, hcursors, hcapacity⟩ | hrun
      · exact haccepted (ring after) rfl (ring_hands hvalues hafter hcursors hcapacity)
          (by rw [tryPublish, hrun]; rfl)
      · exact hrefused .full trivial (by rw [tryPublish, hrun]; rfl)

/-! ## After closing -/

theorem close_close (queue : Queue α) : queue.close.close = queue.close := by
  cases queue <;> rfl

theorem isClosed_close (queue : Queue α) : queue.close.isClosed = true := by
  cases queue <;> rfl

theorem unread_close (queue : Queue α) (consumer : ConsumerId) :
    queue.close.unread consumer = queue.unread consumer := by
  cases queue <;> rfl

theorem isConsumer_close (queue : Queue α) (consumer : ConsumerId) :
    queue.close.IsConsumer consumer ↔ queue.IsConsumer consumer := by
  cases queue <;> exact Iff.rfl

/-- Somebody who registers late gets a name, and nothing else. -/
theorem subscribe_close (queue : Queue α) :
    queue.close.subscribe = (queue.subscribe.1, queue.subscribe.2.close) := by
  cases queue <;> rfl

theorem unsubscribe_close (queue : Queue α) (consumer : ConsumerId) :
    queue.close.unsubscribe consumer = (queue.unsubscribe consumer).close := by
  cases queue <;> rfl

/-- **Closing takes nothing from anybody**: a consumer reads on, and comes to an end where it would
have had to wait. -/
theorem next_close (h : queue.Sound) (hconsumer : queue.IsConsumer consumer) :
    (∃ value after, queue.next consumer = (.ready value, after) ∧
        queue.close.next consumer = (.ready value, after.close)) ∨
      queue.next consumer = (.empty, queue) ∧
        queue.close.next consumer = (.closed, queue.close) := by
  cases queue with
  | ring r =>
    obtain ⟨values, h⟩ := h
    obtain ⟨cursor, hcursor⟩ := Option.isSome_iff_exists.1 hconsumer
    have hlater : r.close.cursors.lookup consumer = some cursor := hcursor
    have hpublished : r.close.published = values.length := h.published
    rcases Nat.lt_or_ge cursor values.length with hlt | hle
    · obtain ⟨-, hlag⟩ := h.cursor _ (mem_of_lookup hcursor)
      have hvalue : r.close.value? cursor = some values[cursor] := by
        rw [← List.getElem?_eq_getElem hlt]
        exact h.slots cursor hlt hlag
      left
      refine ⟨values[cursor], ring (r.next consumer).2, ?_, ?_⟩
      · simp only [next, h.next_of_lt hcursor hlt]
      · rw [h.next_of_lt hcursor hlt]
        show ((r.close.next consumer).1, ring (r.close.next consumer).2) = _
        have hmore : ¬r.close.published ≤ cursor := by rw [hpublished]; exact Nat.not_le.2 hlt
        simp only [Ring.next, hlater, if_neg hmore, hvalue]
        rfl
    · right
      constructor
      · simp only [next, h.next_of_le hcursor hle]
      · show ((r.close.next consumer).1, ring (r.close.next consumer).2) = _
        have hend : r.close.published ≤ cursor := by rw [hpublished]; exact hle
        simp only [Ring.next, hlater, if_pos hend]
        rfl
  | mailboxes boxes =>
    have hinbox : boxes.close.inbox? consumer = boxes.inbox? consumer := rfl
    rcases Mailboxes.next_cases h hconsumer with ⟨value, after, hnext⟩ | ⟨hnext, -⟩
    · left
      refine ⟨value, mailboxes after, by simp only [next, hnext], ?_⟩
      show (((boxes.close.next consumer).1, mailboxes (boxes.close.next consumer).2)) = _
      unfold Mailboxes.next at hnext ⊢
      rw [hinbox]
      split at hnext
      next => obtain ⟨hpoll, rfl⟩ := Prod.mk.inj hnext; rw [← hpoll]; rfl
      next => split at hnext <;> simp at hnext
    · right
      refine ⟨by simp only [next, hnext], ?_⟩
      show (((boxes.close.next consumer).1, mailboxes (boxes.close.next consumer).2)) = _
      unfold Mailboxes.next at hnext ⊢
      rw [hinbox]
      split at hnext
      next => simp at hnext
      next => rfl

/-- A closed queue takes nothing any more. -/
theorem publish_close (hidle : queue.isBusy = false) (batch : List α) :
    queue.close.publish batch
      = (if batch = [] then .published else .rejected ⟨.closed, batch⟩, queue.close) := by
  by_cases hbatch : batch = []
  · subst hbatch
    cases queue <;> rfl
  · rw [if_neg hbatch]
    have hempty : ¬batch.isEmpty = true := by simpa using hbatch
    cases queue with
    | ring r =>
      show ((r.close.publish batch).1, ring (r.close.publish batch).2) = _
      unfold Ring.publish
      rw [if_neg hempty]
      rfl
    | mailboxes boxes =>
      have hquiet : boxes.close.busy = false := hidle
      show ((boxes.close.publish batch).1, mailboxes (boxes.close.publish batch).2) = _
      unfold Mailboxes.publish
      rw [if_neg hempty, hquiet]
      rfl

theorem tried_close (queue : Queue α) (batch : List α) :
    queue.close.tried batch
      = (if batch = [] then .ok () else .error ⟨.closed, batch⟩, queue.close) := by
  by_cases hbatch : batch = []
  · subst hbatch
    cases queue <;> rfl
  · rw [if_neg hbatch]
    have hempty : ¬batch.isEmpty = true := by simpa using hbatch
    have hrefused : queue.close.tryPublish batch = .error ⟨.closed, batch⟩ := by
      cases queue with
      | ring r =>
        show ring <$> r.close.tryPublish batch = _
        unfold Ring.tryPublish
        rw [if_neg hempty]
        rfl
      | mailboxes boxes =>
        show mailboxes <$> boxes.close.tryPublish batch = _
        unfold Mailboxes.tryPublish
        rw [if_neg hempty]
        rfl
    unfold tried
    rw [hrefused]

end CommitLog.Queue
