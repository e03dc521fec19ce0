import CommitLog.Proofs.Queue.Blocking.Backends

/-!
# What others do in the middle of a publication

Consumers poll, register and are dropped, and the queue is closed, at any stage of a publication
that allows it. Each of these operations leaves the queue where the stage wants it, and the batch
comes to nobody by it.
-/

namespace CommitLog.Queue.Blocking

variable {α : Type} {batch : List α} {start queue : Queue α} {r r' : Ring α}
  {boxes boxes' : Mailboxes α} {stage : Stage α} {served : List ConsumerId}
  {consumer other : ConsumerId}

/-! ## Queues that have moved on -/

/-- A ring where cursors have only moved on, and nobody has come who was there at the start. -/
theorem RingAt.forward (h : RingAt batch start r stage served) (hclaimed : r'.claimed = r.claimed)
    (hpublished : r'.published = r.published) (hcapacity : r'.capacity = r.capacity)
    (hcursors : ∀ entry ∈ r'.cursors,
      (∃ old ∈ r.cursors, old.2 ≤ entry.2) ∨ r.published ≤ entry.2)
    (hconsumer : ∀ consumer, start.IsConsumer consumer → (ring r').IsConsumer consumer →
      (ring r).IsConsumer consumer) : RingAt batch start r' stage served := by
  have hsettled : r.claimed = r.published → r'.claimed = r'.published := fun hsettled => by
    rw [hclaimed, hpublished, hsettled]
  cases h with
  | arriving h => exact .arriving (hsettled h)
  | entering h => exact .entering (hsettled h)
  | reserving h => exact .reserving (hsettled h)
  | refused h => exact .refused (hsettled h)
  | accepted h hall =>
    exact .accepted (hsettled h) (hall.imp_right fun hall consumer hstart hthere =>
      hall consumer hstart (hconsumer consumer hstart hthere))
  | filling hrange hlow hold hroom =>
    rw [← hpublished]
    refine .filling ?_ (hpublished.symm ▸ hlow) (fun entry hentry => ?_) ?_
    · rw [hclaimed, hpublished, hrange]
    · rcases hcursors entry hentry with ⟨old, hmem, hle⟩ | hle
      · exact Nat.le_trans (hold old hmem) hle
      · exact Nat.le_trans hlow hle
    · rw [hpublished, hcapacity]
      exact hroom

/-- Mailboxes where nobody has come. -/
theorem BoxesAt.kept (h : BoxesAt batch start boxes stage served) (hbusy : boxes'.busy = boxes.busy)
    (hconnected : boxes'.connected = boxes.connected)
    (hclosed : boxes'.closed = false → boxes.closed = false)
    (hinbox : ∀ consumer, (boxes'.inbox? consumer).isSome → (boxes.inbox? consumer).isSome) :
    BoxesAt batch start boxes' stage served := by
  cases h with
  | arriving hidle hall =>
    refine .arriving (hbusy.trans hidle) fun hopen consumer hthere => ?_
    rw [hconnected]
    exact hall (hclosed hopen) consumer (hinbox consumer hthere)
  | handing h hle hall =>
    rw [← hconnected]
    refine .handing (hbusy.trans h) (hconnected.symm ▸ hle) fun consumer hthere => ?_
    rw [hconnected]
    exact hall consumer (hinbox consumer hthere)
  | doubting h hle hall =>
    rw [← hconnected]
    refine .doubting (hbusy.trans h) (hconnected.symm ▸ hle) fun consumer hthere => ?_
    rw [hconnected]
    exact hall consumer (hinbox consumer hthere)
  | refused hidle => exact .refused (hbusy.trans hidle)
  | brokenOff hidle => exact .brokenOff (hbusy.trans hidle)
  | accepted hidle hall =>
    exact .accepted (hbusy.trans hidle) (hall.imp_right fun hall consumer hstart hthere =>
      hall consumer hstart (hinbox consumer hthere))

/-! ## Polling -/

theorem isConsumer_next (queue : Queue α) (consumer other : ConsumerId) :
    (queue.next other).2.IsConsumer consumer ↔ queue.IsConsumer consumer := by
  by_cases hne : other = consumer
  · subst hne
    cases queue with
    | ring r =>
      cases hcursor : r.cursors.lookup other with
      | none =>
        have hstays : (r.next other).2 = r := by simp only [Ring.next, hcursor]
        simp only [next, hstays]
      | some cursor =>
        refine ⟨fun _ => ?_, fun _ => ?_⟩
        · exact Option.isSome_iff_exists.2 ⟨cursor, hcursor⟩
        · show ((r.next other).2.cursors.lookup other).isSome
          rcases r.next_eq other with hstays | hmoved
          · rw [hstays, hcursor]
            rfl
          · rw [hmoved, Ring.lookup_advanceCursor hcursor]
            rfl
    | mailboxes boxes =>
      refine ⟨fun hafter => ?_, Mailboxes.isSome_inbox?_next⟩
      by_contra hnot
      have hnone : boxes.inbox? other = none := Option.not_isSome_iff_eq_none.1 hnot
      have hstays : (boxes.next other).2 = boxes := by
        simp only [Mailboxes.next, hnone, Option.bind_none]
      have hthere : ((boxes.next other).2.inbox? other).isSome := hafter
      rw [hstays, hnone] at hthere
      cases hthere
  · exact (same_next queue hne).isConsumer

theorem name_next (queue : Queue α) (consumer : ConsumerId) :
    (queue.next consumer).2.subscribe.1 = queue.subscribe.1 := by
  cases queue with
  | ring r =>
    show (r.next consumer).2.registered = r.registered
    rcases r.next_eq consumer with hstays | hmoved
    · rw [hstays]
    · rw [hmoved]
  | mailboxes boxes =>
    show (boxes.next consumer).2.registered = boxes.registered
    unfold Mailboxes.next
    split <;> rfl

/-- A consumer is given what comes first, or is told that there is nothing: for good only if the
batch does not come to it any more, or is on its way into a ring. -/
theorem Fits.next_cases (h : Fits batch start queue stage served)
    (hconsumer : queue.IsConsumer consumer) :
    (∃ value after, queue.next consumer = (.ready value, after) ∧
        queue.unread consumer = value :: after.unread consumer) ∨
      ∃ poll, queue.next consumer = (poll, queue) ∧ poll.value? = none ∧
        queue.unread consumer = [] ∧
        (poll.isClosed = true → stage.underway = true ∨ Over queue stage consumer) := by
  cases queue with
  | ring r =>
    obtain ⟨⟨values, hrecords⟩, -⟩ := h
    obtain ⟨cursor, hcursor⟩ := Option.isSome_iff_exists.1 hconsumer
    rcases Ring.next_of_reopen hrecords hcursor with ⟨value, hnext, -⟩ | ⟨hnext, hunread⟩
    · have hready : (ring r).next consumer = (.ready value, ring (r.next consumer).2) := by
        simp only [next, hnext]
      exact .inl ⟨value, _, hready, unread_of_next_ready hready⟩
    · refine .inr ⟨_, by simp only [next, hnext]; rfl, ?_, hunread, fun hclosed => ?_⟩
      · split <;> rfl
      · by_cases hring : r.closed = true
        · cases hstage : stage.underway with
          | true => exact .inl rfl
          | false => exact .inr ⟨hring, hstage⟩
        · rw [if_neg hring] at hclosed
          cases hclosed
  | mailboxes boxes =>
    show _ ∨ ∃ poll, ((boxes.next consumer).1, mailboxes (boxes.next consumer).2) = _ ∧ _
    cases hnext : (boxes.inbox? consumer).bind Inbox.next? with
    | some found =>
      have hready : (mailboxes boxes).next consumer
          = (.ready found.1, mailboxes (boxes.next consumer).2) := by
        simp only [next, Mailboxes.next, hnext]
      exact .inl ⟨_, _, hready, unread_of_next_ready hready⟩
    | none =>
      have hnothing : boxes.next consumer
          = (if boxes.connected.contains consumer then .empty else .closed, boxes) := by
        simp only [Mailboxes.next, hnext]
      refine .inr ⟨_, by rw [hnothing], ?_, ?_, fun hclosed => .inr fun hmem => ?_⟩
      · split <;> rfl
      · obtain ⟨inbox, hinbox⟩ := Option.isSome_iff_exists.1 hconsumer
        have hinbox' : boxes.inbox? consumer = some inbox := hinbox
        rw [hinbox', Option.bind_some] at hnext
        have hrows := Mailboxes.nextOf_eq_none hnext
        simpa [unread, Mailboxes.unread, hinbox', Inbox.unread] using hrows
      · rw [if_pos (List.contains_iff_mem.2 hmem)] at hclosed
        cases hclosed

theorem Fits.next (h : Fits batch start queue stage served) (other : ConsumerId) :
    Fits batch start (queue.next other).2 stage served := by
  have hconsumer := fun consumer => (isConsumer_next queue consumer other).1
  cases queue with
  | ring r =>
    obtain ⟨⟨values, hrecords⟩, hat⟩ := h
    show (∃ values, (r.next other).2.reopen.Records values) ∧
      RingAt batch start (r.next other).2 stage served
    have hstays : (r.next other).2 = r → (∃ values, (r.next other).2.reopen.Records values) ∧
        RingAt batch start (r.next other).2 stage served := fun hstays => by
      rw [hstays]
      exact ⟨⟨values, hrecords⟩, hat⟩
    cases hcursor : r.cursors.lookup other with
    | none => exact hstays (by simp only [Ring.next, hcursor])
    | some cursor =>
      rcases Ring.next_of_reopen hrecords hcursor with ⟨value, hnext, hmoved⟩ | ⟨hnext, -⟩
      · rw [hnext]
        refine ⟨⟨values, hmoved⟩, hat.forward rfl rfl rfl (fun entry hentry => .inl ?_)
          fun consumer _ => ?_⟩
        · rcases Ring.mem_advanceCursor hentry with hold | ⟨before, hbefore, rfl⟩
          · exact ⟨entry, hold, Nat.le_refl _⟩
          · exact ⟨_, mem_of_lookup hbefore, Nat.le_succ _⟩
        · have hthere := hconsumer consumer
          simp only [Queue.next, hnext] at hthere
          exact hthere
      · exact hstays (by rw [hnext])
  | mailboxes boxes =>
    obtain ⟨hordered, hat⟩ := h
    have hsame : (boxes.next other).2.closed = boxes.closed ∧
        (boxes.next other).2.registered = boxes.registered ∧
        (boxes.next other).2.busy = boxes.busy := by
      unfold Mailboxes.next
      split <;> exact ⟨rfl, rfl, rfl⟩
    obtain ⟨hclosed, hregistered, hbusy⟩ := hsame
    have hconnected := Mailboxes.connected_next boxes other
    refine ⟨⟨?_, fun consumer hmem => ?_, fun consumer hthere => ?_⟩,
      hat.kept hbusy hconnected hclosed.symm.trans hconsumer⟩
    · rw [hconnected]
      exact hordered.nodup
    · rw [hregistered]
      exact hordered.connected consumer (hconnected ▸ hmem)
    · rw [hregistered]
      exact hordered.registered consumer (hconsumer consumer hthere)

/-! ## Coming and going -/

theorem Fits.unsubscribe (h : Fits batch start queue stage served) (other : ConsumerId) :
    Fits batch start (queue.unsubscribe other) stage served := by
  have hconsumer : ∀ consumer, (queue.unsubscribe other).IsConsumer consumer →
      queue.IsConsumer consumer := fun consumer hthere => by
    by_cases hne : other = consumer
    · subst hne
      exact absurd hthere (not_isConsumer_unsubscribe queue other)
    · exact (same_unsubscribe queue hne).isConsumer.1 hthere
  cases queue with
  | ring r =>
    obtain ⟨⟨values, hrecords⟩, hat⟩ := h
    exact ⟨⟨values, hrecords.unsubscribe other⟩, hat.forward rfl rfl rfl
      (fun entry hentry => .inl ⟨entry, (List.mem_filter.1 hentry).1, Nat.le_refl _⟩)
      fun consumer _ => hconsumer consumer⟩
  | mailboxes boxes =>
    obtain ⟨hordered, hat⟩ := h
    exact ⟨⟨hordered.nodup, hordered.connected, fun consumer hthere =>
      hordered.registered consumer (hconsumer consumer hthere)⟩,
      hat.kept rfl rfl id hconsumer⟩

/-- Whoever comes was not there at the start. -/
theorem Fits.subscribe (h : Fits batch start queue stage served) (hidle : queue.isBusy = false)
    (hstart : ∀ consumer, start.IsConsumer consumer → consumer < queue.subscribe.1) :
    Fits batch start queue.subscribe.2 stage served := by
  have hconsumer : ∀ consumer, start.IsConsumer consumer →
      queue.subscribe.2.IsConsumer consumer → queue.IsConsumer consumer := fun consumer hthere =>
    (same_subscribe queue (Nat.ne_of_lt (hstart consumer hthere))).isConsumer.1
  cases queue with
  | ring r =>
    obtain ⟨⟨values, hrecords⟩, hat⟩ := h
    refine ⟨⟨values, hrecords.subscribe⟩, hat.forward rfl rfl rfl (fun entry hentry => ?_)
      hconsumer⟩
    rcases List.mem_append.1 hentry with hold | hnew
    · exact .inl ⟨entry, hold, Nat.le_refl _⟩
    · rw [List.mem_singleton.1 hnew]
      exact .inr (Nat.le_refl _)
  | mailboxes boxes =>
    obtain ⟨hordered, hat⟩ := h
    have hconnected : boxes.subscribe.2.connected
        = if boxes.closed then boxes.connected else boxes.connected ++ [boxes.registered] := rfl
    have hwas : ∀ consumer, (boxes.subscribe.2.inbox? consumer).isSome →
        (boxes.inbox? consumer).isSome ∨ consumer = boxes.registered := fun consumer hthere => by
      by_cases hnew : consumer = boxes.registered
      · exact .inr hnew
      · exact .inl ((same_subscribe (mailboxes boxes) hnew).isConsumer.1 hthere)
    refine ⟨⟨?_, fun consumer hmem => ?_, fun consumer hthere => ?_⟩, ?_⟩
    · rw [hconnected]
      split
      · exact hordered.nodup
      · refine List.nodup_append.2 ⟨hordered.nodup, by simp, ?_⟩
        rintro consumer hmem _ hlast rfl
        rw [List.mem_singleton.1 hlast] at hmem
        exact Nat.lt_irrefl _ (hordered.connected _ hmem)
    · rw [hconnected] at hmem
      split at hmem
      · exact Nat.lt_succ_of_lt (hordered.connected consumer hmem)
      · rcases List.mem_append.1 hmem with hmem | hmem
        · exact Nat.lt_succ_of_lt (hordered.connected consumer hmem)
        · rw [List.mem_singleton.1 hmem]
          exact Nat.lt_succ_self _
    · rcases hwas consumer hthere with hold | rfl
      · exact Nat.lt_succ_of_lt (hordered.registered consumer hold)
      · exact Nat.lt_succ_self _
    · cases hat with
      | arriving _ hall =>
        refine .arriving hidle fun hopen consumer hthere => ?_
        have hopen' : boxes.closed = false := hopen
        rw [hconnected, hopen', if_neg Bool.false_ne_true]
        rcases hwas consumer hthere with hold | rfl
        · exact List.mem_append_left _ (hall hopen' consumer hold)
        · exact List.mem_append_right _ List.mem_cons_self
      | handing hbusy => exact absurd (hbusy.symm.trans hidle) nofun
      | doubting hbusy => exact absurd (hbusy.symm.trans hidle) nofun
      | refused => exact .refused hidle
      | brokenOff => exact .brokenOff hidle
      | accepted _ hall =>
        exact .accepted hidle (hall.imp_right fun hall consumer hthere hstill =>
          hall consumer hthere (hconsumer consumer hthere hstill))

/-! ## Closing -/

theorem Fits.stop (h : Fits batch start queue stage served) :
    Fits batch start queue.stop stage served := by
  cases queue with
  | ring r =>
    obtain ⟨hvalues, hat⟩ := h
    exact ⟨hvalues, hat.forward rfl rfl rfl
      (fun entry hentry => .inl ⟨entry, hentry, Nat.le_refl _⟩) fun _ _ => id⟩
  | mailboxes boxes =>
    obtain ⟨hordered, hat⟩ := h
    exact ⟨⟨hordered.nodup, hordered.connected, hordered.registered⟩,
      hat.kept rfl rfl nofun fun _ => id⟩

/-- Mailboxes are disconnected when no publication holds them. -/
theorem Fits.disconnect (h : Fits batch start queue stage served) (hclosed : queue.isClosed = true)
    (hidle : queue.isBusy = false) : Fits batch start queue.disconnect stage served := by
  cases queue with
  | ring r => exact h
  | mailboxes boxes =>
    obtain ⟨hordered, hat⟩ := h
    refine ⟨⟨List.nodup_nil, nofun, hordered.registered⟩, ?_⟩
    cases hat with
    | arriving => exact .arriving hidle fun hopen => absurd (hclosed.symm.trans hopen) nofun
    | handing hbusy => exact absurd (hbusy.symm.trans hidle) nofun
    | doubting hbusy => exact absurd (hbusy.symm.trans hidle) nofun
    | refused => exact .refused hidle
    | brokenOff => exact .brokenOff hidle
    | accepted _ hall => exact .accepted hidle hall

/-! ## Too late -/

theorem Over.next (h : Over queue stage consumer) (other : ConsumerId) :
    Over (queue.next other).2 stage consumer := by
  cases queue with
  | ring r =>
    refine ⟨?_, h.2⟩
    rcases r.next_eq other with hstays | hmoved
    · rw [hstays]
      exact h.1
    · rw [hmoved]
      exact h.1
  | mailboxes boxes =>
    show consumer ∉ (boxes.next other).2.connected
    rw [Mailboxes.connected_next]
    exact h

theorem Over.unsubscribe (h : Over queue stage consumer) (other : ConsumerId) :
    Over (queue.unsubscribe other) stage consumer := by
  cases queue <;> exact h

theorem Over.subscribe (h : Over queue stage consumer) (hlt : consumer < queue.subscribe.1) :
    Over queue.subscribe.2 stage consumer := by
  cases queue with
  | ring r => exact h
  | mailboxes boxes =>
    show consumer ∉ if boxes.closed then boxes.connected else boxes.connected ++ [boxes.registered]
    split
    · exact h
    · rw [List.mem_append, List.mem_singleton]
      exact fun hmem => hmem.elim h (Nat.ne_of_lt hlt)

theorem Over.stop (h : Over queue stage consumer) : Over queue.stop stage consumer := by
  cases queue with
  | ring r => exact ⟨rfl, h.2⟩
  | mailboxes boxes => exact h

theorem Over.disconnect (h : Over queue stage consumer) : Over queue.disconnect stage consumer := by
  cases queue with
  | ring r => exact h
  | mailboxes boxes => exact nofun

end CommitLog.Queue.Blocking
