import CommitLog.Proofs.Queue.Handing

/-!
# Queues that have been stopped

A queue that has been stopped takes no batch any more. A publication that still waits may come to
some more mailboxes while others make room, until it gives up or the mailboxes are disconnected; so
a consumer comes to have what it was owed, or never will (`resume_shut`). Apart from that nobody's
values change but by being read.
-/

namespace CommitLog.Queue

variable {α : Type} {queue after : Queue α} {batch : List α} {publication : Publication α}
  {progress : Progress α} {consumer other : ConsumerId}

/-- A queue that has been stopped. No name is given to two consumers, and nobody has two
mailboxes. -/
def Shut : Queue α → Prop
  | ring r => r.closed = true ∧ ∀ entry ∈ r.cursors, entry.1 < r.registered
  | mailboxes boxes =>
    boxes.closed = true ∧ boxes.connected.Nodup ∧
      ∀ consumer, (boxes.inbox? consumer).isSome → consumer < boxes.registered

/-- Nothing has changed for a consumer of a queue that was stopped but perhaps what it has not seen
yet. -/
structure Settled (queue after : Queue α) (consumer : ConsumerId) : Prop where
  shut : after.Shut
  isConsumer : queue.IsConsumer consumer → after.IsConsumer consumer
  resumable : ∀ publication, queue.Resumable publication → after.Resumable publication
  owed : ∀ publication, after.owed publication consumer = queue.owed publication consumer

theorem isClosed_of_shut (h : queue.Shut) : queue.isClosed = true := by
  cases queue <;> exact h.1

/-! ## Stopping -/

theorem settled_stop (h : queue.Sound) (consumer : ConsumerId) :
    queue.Settled queue.stop consumer ∧ queue.stop.unread consumer = queue.unread consumer := by
  cases queue with
  | ring r =>
    obtain ⟨values, h⟩ := h
    exact ⟨⟨⟨rfl, h.registered⟩, id, fun _ => id, fun _ => rfl⟩, rfl⟩
  | mailboxes boxes =>
    have hregistered : ∀ consumer, (boxes.inbox? consumer).isSome → consumer < boxes.registered :=
      fun consumer hinbox => h.registered _ (h.connected _ hinbox)
    exact ⟨⟨⟨rfl, h.nodup, hregistered⟩, id, fun _ => id, fun _ => rfl⟩, rfl⟩

/-- A queue can be stopped again. -/
theorem settled_stop_again (h : queue.Shut) (consumer : ConsumerId) :
    queue.Settled queue.stop consumer ∧ queue.stop.unread consumer = queue.unread consumer := by
  cases queue <;> exact ⟨⟨⟨rfl, h.2⟩, id, fun _ => id, fun _ => rfl⟩, rfl⟩

theorem Shut.disconnect (h : queue.Shut) : queue.disconnect.Shut := by
  cases queue with
  | ring r => exact h
  | mailboxes boxes => exact ⟨h.1, List.nodup_nil, h.2.2⟩

theorem isConsumer_disconnect (queue : Queue α) (consumer : ConsumerId) :
    queue.disconnect.IsConsumer consumer ↔ queue.IsConsumer consumer := by
  cases queue <;> exact Iff.rfl

theorem unread_disconnect (queue : Queue α) (consumer : ConsumerId) :
    queue.disconnect.unread consumer = queue.unread consumer := by
  cases queue <;> rfl

/-! ## Others -/

theorem Mailboxes.shut_subscribe {boxes : Mailboxes α} (h : (mailboxes boxes).Shut) :
    (mailboxes boxes.subscribe.2).Shut := by
  obtain ⟨hclosed, hnodup, hregistered⟩ := h
  refine ⟨hclosed, ?_, fun consumer hinbox => ?_⟩
  · simp only [Mailboxes.subscribe, show boxes.closed = true from hclosed, if_true]
    exact hnodup
  · simp only [Mailboxes.subscribe, Mailboxes.inbox?, List.lookup_append] at hinbox ⊢
    rcases hlookup : boxes.inboxes.lookup consumer with _ | inbox
    · rw [hlookup, Option.none_or, List.lookup_cons] at hinbox
      split at hinbox
      next hsame => rw [beq_iff_eq.1 hsame]; exact Nat.lt_succ_self _
      next => simp at hinbox
    · exact Nat.lt_succ_of_lt (hregistered consumer (by simp [Mailboxes.inbox?, hlookup]))

/-- Somebody who registers is nothing to those who are there. -/
theorem settled_subscribe (h : queue.Shut) (consumer : ConsumerId) :
    queue.Settled queue.subscribe.2 consumer ∧
      (queue.IsConsumer consumer → queue.subscribe.2.unread consumer = queue.unread consumer) := by
  cases queue with
  | ring r =>
    have hlater : ∀ {cursor}, r.cursors.lookup consumer = some cursor →
        r.subscribe.2.cursors.lookup consumer = some cursor :=
      fun hcursor => Ring.lookup_append_of_lt hcursor _
    refine ⟨⟨⟨h.1, fun entry hentry => ?_⟩, fun hconsumer => ?_, fun _ => id, fun _ => rfl⟩, ?_⟩
    · rcases List.mem_append.1 hentry with hentry | hentry
      · exact Nat.lt_succ_of_lt (h.2 entry hentry)
      · rw [List.mem_singleton.1 hentry]
        exact Nat.lt_succ_self _
    · obtain ⟨cursor, hcursor⟩ := Option.isSome_iff_exists.1 hconsumer
      exact Option.isSome_iff_exists.2 ⟨cursor, hlater hcursor⟩
    · intro hconsumer
      obtain ⟨cursor, hcursor⟩ := Option.isSome_iff_exists.1 hconsumer
      show r.subscribe.2.unread consumer = r.unread consumer
      unfold Ring.unread
      rw [hlater hcursor, hcursor]
      rfl
  | mailboxes boxes =>
    have hconnected : boxes.subscribe.2.connected = boxes.connected := by
      simp only [Mailboxes.subscribe, show boxes.closed = true from h.1, if_true]
    have hlater : ∀ {inbox}, boxes.inbox? consumer = some inbox →
        boxes.subscribe.2.inbox? consumer = some inbox := by
      intro inbox hinbox
      simp only [Mailboxes.subscribe, Mailboxes.inbox?, List.lookup_append]
      rw [show boxes.inboxes.lookup consumer = some inbox from hinbox]
      rfl
    refine ⟨⟨Mailboxes.shut_subscribe h, fun hconsumer => ?_, fun publication hresumable => ?_,
      fun publication => ?_⟩, ?_⟩
    · obtain ⟨inbox, hinbox⟩ := Option.isSome_iff_exists.1 hconsumer
      exact Option.isSome_iff_exists.2 ⟨inbox, hlater hinbox⟩
    · show _ ∧ publication.served ≤ boxes.subscribe.2.connected.length
      rw [hconnected]
      exact hresumable
    · show boxes.subscribe.2.owed publication consumer = boxes.owed publication consumer
      unfold Mailboxes.owed
      rw [hconnected]
    · intro hconsumer
      obtain ⟨inbox, hinbox⟩ := Option.isSome_iff_exists.1 hconsumer
      exact Mailboxes.unread_eq_of_inbox?_eq ((hlater hinbox).trans hinbox.symm)

/-- Somebody who comes late has nothing in front of it, now or ever. -/
theorem subscribe_shut (h : queue.Shut) :
    queue.subscribe.2.IsConsumer queue.subscribe.1 ∧
      queue.subscribe.2.unread queue.subscribe.1 = [] := by
  cases queue with
  | ring r =>
    have hlookup : r.subscribe.2.cursors.lookup r.registered = some r.published :=
      Ring.lookup_append_new h.2
    refine ⟨Option.isSome_iff_exists.2 ⟨_, hlookup⟩, ?_⟩
    show r.subscribe.2.unread r.registered = []
    unfold Ring.unread
    rw [hlookup]
    simp [Ring.subscribe]
  | mailboxes boxes =>
    obtain ⟨-, -, hregistered⟩ := h
    have hnone : boxes.inboxes.lookup boxes.registered = none := by
      rw [← Option.not_isSome_iff_eq_none]
      exact fun hinbox => Nat.lt_irrefl _ (hregistered boxes.registered hinbox)
    have hlookup : boxes.subscribe.2.inbox? boxes.registered = some {} := by
      simp [Mailboxes.subscribe, Mailboxes.inbox?, List.lookup_append, hnone]
    refine ⟨Option.isSome_iff_exists.2 ⟨_, hlookup⟩, ?_⟩
    show boxes.subscribe.2.unread boxes.registered = []
    unfold Mailboxes.unread
    rw [hlookup]
    rfl

/-- Somebody who leaves is nothing to the others. -/
theorem settled_unsubscribe (h : queue.Shut) (hne : other ≠ consumer) :
    queue.Settled (queue.unsubscribe other) consumer ∧
      (queue.unsubscribe other).unread consumer = queue.unread consumer := by
  cases queue with
  | ring r =>
    have hlookup : (r.unsubscribe other).cursors.lookup consumer = r.cursors.lookup consumer :=
      lookup_filter_ne hne
    refine ⟨⟨⟨h.1, fun entry hentry => h.2 entry (List.mem_filter.1 hentry).1⟩, ?_, fun _ => id,
      fun _ => rfl⟩, ?_⟩
    · show _ → ((r.unsubscribe other).cursors.lookup consumer).isSome
      rw [hlookup]
      exact id
    · show (r.unsubscribe other).unread consumer = r.unread consumer
      unfold Ring.unread
      rw [hlookup]
      rfl
  | mailboxes boxes =>
    have hinbox : (boxes.unsubscribe other).inbox? consumer = boxes.inbox? consumer :=
      lookup_filter_ne hne
    refine ⟨⟨⟨h.1, h.2.1, fun there hthere => ?_⟩, ?_, fun _ => id, fun _ => rfl⟩,
      Mailboxes.unread_eq_of_inbox?_eq hinbox⟩
    · by_cases hsame : other = there
      · subst hsame
        simp [Mailboxes.unsubscribe, Mailboxes.inbox?, lookup_filter_self] at hthere
      · simp only [Mailboxes.unsubscribe, Mailboxes.inbox?,
          lookup_filter_ne hsame] at hthere
        exact h.2.2 there hthere
    · show _ → ((boxes.unsubscribe other).inbox? consumer).isSome
      rw [hinbox]
      exact id

/-! ## Polling -/

/-- A poll moves the cursor of its consumer, or nothing. -/
theorem Ring.next_eq (r : Ring α) (consumer : ConsumerId) :
    (r.next consumer).2 = r ∨
      (r.next consumer).2 = { r with cursors := Ring.advanceCursor consumer r.cursors } := by
  unfold Ring.next
  split
  next => exact Or.inl rfl
  next =>
    split
    next => exact Or.inl rfl
    next =>
      dsimp only
      split <;> exact Or.inr rfl

theorem Ring.shut_next {r : Ring α} (h : (ring r).Shut) (other : ConsumerId) :
    (ring (r.next other).2).Shut := by
  rcases r.next_eq other with hstay | hmoved
  · rw [hstay]
    exact h
  · rw [hmoved]
    refine ⟨h.1, fun entry hentry => ?_⟩
    rcases Ring.mem_advanceCursor hentry with hentry | ⟨before, hbefore, rfl⟩
    · exact h.2 entry hentry
    · exact h.2 (other, before) (mem_of_lookup hbefore)

theorem Mailboxes.shut_next {boxes : Mailboxes α} (h : (mailboxes boxes).Shut)
    (other : ConsumerId) : (mailboxes (boxes.next other).2).Shut := by
  obtain ⟨hclosed, hnodup, hregistered⟩ := h
  have hsame : (boxes.next other).2.closed = boxes.closed ∧
      (boxes.next other).2.registered = boxes.registered := by
    unfold Mailboxes.next
    split <;> exact ⟨rfl, rfl⟩
  refine ⟨hsame.1.trans hclosed, ?_, fun consumer hinbox => ?_⟩
  · rw [Mailboxes.connected_next]
    exact hnodup
  · rw [hsame.2]
    refine hregistered consumer ?_
    by_cases hne : other = consumer
    · subst hne
      unfold Mailboxes.next at hinbox
      split at hinbox
      next value rest hnext =>
        obtain ⟨inbox, hthere, -⟩ := Option.bind_eq_some_iff.1 hnext
        rw [hthere]
        rfl
      next => exact hinbox
    · rwa [Mailboxes.inbox?_next_ne boxes hne] at hinbox

/-- A poll of anybody leaves a consumer where it is. -/
theorem settled_next (h : queue.Shut) (other consumer : ConsumerId) :
    queue.Settled (queue.next other).2 consumer := by
  cases queue with
  | ring r =>
    refine ⟨Ring.shut_next h other, fun hconsumer => ?_, fun _ => id, fun _ => rfl⟩
    show ((r.next other).2.cursors.lookup consumer).isSome
    by_cases hne : other = consumer
    · subst hne
      rcases r.next_eq other with hstay | hmoved
      · rw [hstay]
        exact hconsumer
      · rw [hmoved]
        obtain ⟨cursor, hcursor⟩ := Option.isSome_iff_exists.1 hconsumer
        exact Option.isSome_iff_exists.2 ⟨_, Ring.lookup_advanceCursor hcursor⟩
    · rw [Ring.lookup_next_ne r hne]
      exact hconsumer
  | mailboxes boxes =>
    have hconnected := Mailboxes.connected_next boxes other
    refine ⟨Mailboxes.shut_next h other, fun hconsumer => ?_, fun publication hresumable => ?_,
      fun publication => ?_⟩
    · show ((boxes.next other).2.inbox? consumer).isSome
      by_cases hne : other = consumer
      · subst hne
        exact Mailboxes.isSome_inbox?_next hconsumer
      · rw [Mailboxes.inbox?_next_ne boxes hne]
        exact hconsumer
    · show _ ∧ publication.served ≤ (boxes.next other).2.connected.length
      rw [hconnected]
      exact hresumable
    · show (boxes.next other).2.owed publication consumer = boxes.owed publication consumer
      unfold Mailboxes.owed
      rw [hconnected]

theorem unread_next_ne (queue : Queue α) (hne : other ≠ consumer) :
    (queue.next other).2.unread consumer = queue.unread consumer := by
  cases queue with
  | ring r =>
    show (r.next other).2.unread consumer = r.unread consumer
    have hlookup := Ring.lookup_next_ne r hne
    rcases r.next_eq other with hstay | hmoved
    · rw [hstay]
    · unfold Ring.unread
      rw [hlookup]
      rw [hmoved]
      rfl
  | mailboxes boxes => exact Mailboxes.unread_eq_of_inbox?_eq (Mailboxes.inbox?_next_ne boxes hne)

/-- A poll that gives nothing takes nothing. -/
theorem unread_of_next_nothing {poll : Poll α} (hnext : queue.next consumer = (poll, after))
    (hpoll : ∀ value, poll ≠ .ready value) : after.unread consumer = queue.unread consumer := by
  cases queue with
  | ring r =>
    obtain ⟨rfl, rfl⟩ := Prod.mk.inj hnext
    show (r.next consumer).2.unread consumer = r.unread consumer
    cases hcursor : r.cursors.lookup consumer with
    | none => simp only [Ring.next, hcursor]
    | some cursor =>
      by_cases hend : r.published ≤ cursor
      · simp only [Ring.next, hcursor, if_pos hend]
      · cases hvalue : r.value? cursor with
        | some value =>
          refine absurd ?_ (hpoll value)
          simp only [Ring.next, hcursor, if_neg hend, hvalue]
        | none =>
          have hsplit : r.published - cursor = r.published - (cursor + 1) + 1 := by omega
          simp only [Ring.next, hcursor, if_neg hend, hvalue, Ring.unread,
            Ring.lookup_advanceCursor hcursor]
          rw [hsplit, List.range'_succ, List.filterMap_cons, hvalue]
          rfl
  | mailboxes boxes =>
    obtain ⟨rfl, rfl⟩ := Prod.mk.inj hnext
    show (boxes.next consumer).2.unread consumer = boxes.unread consumer
    unfold Mailboxes.next at hpoll ⊢
    split
    next value rest hready => exact absurd (by rw [hready]) (hpoll value)
    next => rfl

/-! ## Publishing -/

/-- A queue that was stopped begins no transaction. -/
theorem ofBatch_of_closed (h : queue.isClosed = true) (batch : List α) :
    Transaction.ofBatch queue batch = .error .closed := by
  unfold Transaction.ofBatch Transaction.begin
  rw [if_pos h]
  rfl

/-- A publication that waits comes to a consumer or does not, and then gives up. -/
theorem Mailboxes.proceed_closed (boxes : Mailboxes α) (publication : Publication α)
    (h : (mailboxes boxes).Shut) {progress : Progress α} {after : Mailboxes α}
    (hrun : boxes.proceed publication = (progress, after)) :
    (mailboxes after).Shut ∧ (∀ rest, progress ≠ .waiting rest) ∧
      ∀ consumer, (boxes.inbox? consumer).isSome → (after.inbox? consumer).isSome ∧
        (after.unread consumer = boxes.unread consumer ∨
          after.unread consumer = boxes.unread consumer ++ boxes.owed publication consumer) := by
  fun_induction Mailboxes.proceed boxes publication with
  | case1 boxes publication hlt consumer hgone ih =>
    obtain ⟨hclosed, hnodup, hregistered⟩ := h
    have hperm := Mailboxes.perm_swapRemove hlt
    obtain ⟨hafter, hends, hall⟩ :=
      ih ⟨hclosed, (List.nodup_cons.1 (hperm.nodup_iff.2 hnodup)).2, hregistered⟩ hrun
    refine ⟨hafter, hends, fun other hother => ?_⟩
    have hcases := hall other hother
    simp only [Mailboxes.owed, Mailboxes.take_swapRemove hlt] at hcases ⊢
    exact hcases
  | case2 boxes publication hlt consumer hthere hroom ih =>
    obtain ⟨hclosed, hnodup, hregistered⟩ := h
    have hinbox : (boxes.inbox? boxes.connected[publication.served]).isSome := by
      rw [Option.isSome_iff_ne_none]
      exact fun hnone => hthere (Option.isNone_iff_eq_none.2 hnone)
    have hkept : ∀ other, ((boxes.push publication.batch consumer).inbox? other).isSome
        = (boxes.inbox? other).isSome := by
      intro other
      rw [Mailboxes.inbox?_push]
      split
      next => rw [Option.isSome_map]
      next => rfl
    have hothers : (boxes.push publication.batch consumer).closed = boxes.closed ∧
        (boxes.push publication.batch consumer).registered = boxes.registered := by
      unfold Mailboxes.push
      split <;> exact ⟨rfl, rfl⟩
    obtain ⟨hafter, hends, hall⟩ := ih ⟨hothers.1.trans hclosed,
      by rw [Mailboxes.push_connected]; exact hnodup,
      fun other hother => by rw [hothers.2]; exact hregistered other (hkept other ▸ hother)⟩ hrun
    refine ⟨hafter, hends, fun other hother => ?_⟩
    obtain ⟨hstays, hcases⟩ := hall other ((hkept other).symm ▸ hother)
    have howed := Mailboxes.owed_push hnodup hlt other hinbox
    refine ⟨hstays, ?_⟩
    rcases hcases with hsame | hgiven
    · -- nobody is given the batch twice
      by_cases hself : other = consumer
      · have hnone : (boxes.push publication.batch consumer).owed
            { publication with served := publication.served + 1 } other = [] := by
          unfold Mailboxes.owed
          rw [Mailboxes.push_connected, if_pos]
          rw [List.take_succ_eq_append_getElem hlt, hself]
          exact List.mem_append_right _ (List.mem_singleton.2 rfl)
        rw [hnone, List.append_nil] at howed
        exact Or.inr (hsame.trans howed)
      · rw [Mailboxes.unread_push_ne hself] at hsame
        exact Or.inl hsame
    · exact Or.inr (hgiven.trans howed)
  | case3 boxes publication hlt consumer hthere hfull hclosed =>
    obtain ⟨rfl, rfl⟩ := hrun
    exact ⟨h, by simp, fun other hother => ⟨hother, Or.inl rfl⟩⟩
  | case4 boxes publication hlt consumer hthere hfull hopen => exact absurd h.1 hopen
  | case5 boxes publication hend =>
    obtain ⟨rfl, rfl⟩ := hrun
    exact ⟨h, by simp, fun other hother => ⟨hother, Or.inl rfl⟩⟩

/-- **A publication that waits while the queue is stopped does not wait for long**, and every
consumer has come to have its batch, or never will. -/
theorem resume_shut (h : queue.Shut) (hresumable : queue.Resumable publication)
    (hrun : queue.resume publication = (progress, after)) :
    after.Shut ∧ (∀ rest, progress ≠ .waiting rest) ∧
      ∀ consumer, queue.IsConsumer consumer → after.IsConsumer consumer ∧
        (after.unread consumer = queue.unread consumer ∨
          after.unread consumer = queue.unread consumer ++ queue.owed publication consumer) := by
  cases queue with
  | ring r =>
    have hrefused : r.resume publication = (.rejected ⟨.closed, publication.batch⟩, r) := by
      unfold Ring.resume Ring.claim
      rw [if_pos h.1]
    simp only [resume, hrefused] at hrun
    obtain ⟨rfl, rfl⟩ := hrun
    exact ⟨h, by simp, fun consumer hconsumer => ⟨hconsumer, Or.inl rfl⟩⟩
  | mailboxes boxes =>
    simp only [resume, Mailboxes.resume, hresumable.1, Bool.false_eq_true, if_false] at hrun
    obtain ⟨rfl, rfl⟩ := hrun
    exact boxes.proceed_closed publication h rfl

/-! ## Closed for good -/

theorem isClosed_stop (queue : Queue α) : queue.stop.isClosed = true := by
  cases queue <;> rfl

theorem isClosed_disconnect (queue : Queue α) : queue.disconnect.isClosed = queue.isClosed := by
  cases queue <;> rfl

theorem Mailboxes.closed_proceed (boxes : Mailboxes α) (publication : Publication α) :
    (boxes.proceed publication).2.closed = boxes.closed := by
  fun_induction Mailboxes.proceed boxes publication with
  | case1 boxes publication hlt consumer hgone ih => exact ih
  | case2 boxes publication hlt consumer hthere hroom ih =>
    rw [ih]
    unfold Mailboxes.push
    split <;> rfl
  | case3 | case4 | case5 => rfl

/-- Going on with a publication neither closes a queue nor opens it. -/
theorem isClosed_resume (queue : Queue α) (publication : Publication α) :
    (queue.resume publication).2.isClosed = queue.isClosed := by
  cases queue with
  | ring r =>
    show (r.resume publication).2.closed = r.closed
    unfold Ring.resume Ring.claim
    split
    next start claimed hclaim =>
      split at hclaim
      next => simp at hclaim
      next =>
        split at hclaim
        next => simp at hclaim
        next =>
          obtain ⟨-, rfl⟩ := Prod.mk.inj (Except.ok.inj hclaim)
          rfl
    next => rfl
    next => rfl
  | mailboxes boxes =>
    show (boxes.resume publication).2.closed = boxes.closed
    unfold Mailboxes.resume
    split
    next =>
      unfold Mailboxes.publish
      split
      next => rfl
      next =>
        split
        next => rfl
        next =>
          split
          next => rfl
          next => exact boxes.prune.closed_proceed _
    next => exact boxes.closed_proceed publication

/-- Nor does a poll. -/
theorem isClosed_next (queue : Queue α) (consumer : ConsumerId) :
    (queue.next consumer).2.isClosed = queue.isClosed := by
  cases queue with
  | ring r =>
    show (r.next consumer).2.closed = r.closed
    rcases r.next_eq consumer with hstay | hmoved
    · rw [hstay]
    · rw [hmoved]
  | mailboxes boxes =>
    show (boxes.next consumer).2.closed = boxes.closed
    unfold Mailboxes.next
    split <;> rfl

end CommitLog.Queue
