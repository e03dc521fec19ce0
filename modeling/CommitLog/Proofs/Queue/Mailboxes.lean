import CommitLog.Proofs.Lookup
import CommitLog.Queue.Mailboxes

/-!
# What mailboxes hand over

A publication comes to one mailbox after another, and may have to stop between two of them. What
it still owes a consumer is the batch, unless the mailbox of the consumer is one of those that it
has served. What a consumer has in front of it, together with what it is owed, stays the same
however often the publication stops: `proceed_cases`.
-/

namespace CommitLog.Queue.Mailboxes

variable {α : Type} {boxes after : Mailboxes α} {batch : List α} {publication : Publication α}
  {consumer other : ConsumerId} {inbox : Inbox α}

/-- Mailboxes that are open: whoever is not gone has one, and nobody has two. -/
structure Sound (boxes : Mailboxes α) : Prop where
  isOpen : boxes.closed = false
  connected : ∀ consumer, (boxes.inbox? consumer).isSome → consumer ∈ boxes.connected
  nodup : boxes.connected.Nodup
  registered : ∀ consumer ∈ boxes.connected, consumer < boxes.registered

/-- What a publication that has begun still owes a consumer. -/
def owed (boxes : Mailboxes α) (publication : Publication α) (consumer : ConsumerId) : List α :=
  if consumer ∈ boxes.connected.take publication.served then [] else publication.batch

/-- Consumers that are owed something come to have it, except for what is left. -/
structure Hands (boxes : Mailboxes α) (owed left : ConsumerId → List α) (after : Mailboxes α) :
    Prop where
  sound : after.Sound
  inbox : ∀ consumer, (boxes.inbox? consumer).isSome → (after.inbox? consumer).isSome
  unread : ∀ consumer, (boxes.inbox? consumer).isSome →
    after.unread consumer ++ left consumer = boxes.unread consumer ++ owed consumer

theorem sound_ofLimit (limit : Nat) : (ofLimit limit : Mailboxes α).Sound where
  isOpen := rfl
  connected consumer h := by simp [ofLimit, inbox?] at h
  nodup := List.nodup_nil
  registered := by simp [ofLimit]

/-! ## Inboxes -/

theorem lookup_putInbox_ne {inboxes : List (ConsumerId × Inbox α)} (hne : other ≠ consumer) :
    (putInbox other inbox inboxes).lookup consumer = inboxes.lookup consumer := by
  induction inboxes with
  | nil => rfl
  | cons head rest ih =>
    obtain ⟨id, first⟩ := head
    unfold putInbox
    split
    next hid =>
      have hdiffer : (consumer == id) = false := by
        rw [hid]
        simpa using Ne.symm hne
      rw [List.lookup_cons, List.lookup_cons, hdiffer]
    next => rw [List.lookup_cons, List.lookup_cons, ih]

theorem unread_push_inbox (inbox : Inbox α) (batch : List α) :
    (inbox.push batch).unread = inbox.unread ++ batch := by
  simp [Inbox.unread, Inbox.push]

theorem inbox?_push (boxes : Mailboxes α) (batch : List α) (consumer other : ConsumerId) :
    (boxes.push batch consumer).inbox? other
      = if other = consumer then (boxes.inbox? other).map (Inbox.push · batch)
        else boxes.inbox? other := by
  by_cases hsame : other = consumer
  · subst hsame
    rw [if_pos rfl, push]
    cases hinbox : boxes.inbox? other with
    | none => exact hinbox
    | some inbox => exact lookup_putInbox hinbox
  · rw [if_neg hsame, push]
    cases boxes.inbox? consumer with
    | none => rfl
    | some inbox => exact lookup_putInbox_ne (Ne.symm hsame)

theorem unread_push_self (h : (boxes.inbox? consumer).isSome) :
    (boxes.push batch consumer).unread consumer = boxes.unread consumer ++ batch := by
  obtain ⟨inbox, hinbox⟩ := Option.isSome_iff_exists.1 h
  simp only [unread, inbox?_push, if_pos, hinbox, Option.map_some, unread_push_inbox]

theorem unread_push_ne (hne : consumer ≠ other) :
    (boxes.push batch other).unread consumer = boxes.unread consumer := by
  simp only [unread, inbox?_push, if_neg hne]

theorem unread_eq_of_inbox?_eq (h : after.inbox? consumer = boxes.inbox? consumer) :
    after.unread consumer = boxes.unread consumer := by
  simp only [unread, h]

namespace Sound

theorem push (h : boxes.Sound) (batch : List α) (consumer : ConsumerId) :
    (boxes.push batch consumer).Sound := by
  have hothers : (boxes.push batch consumer).closed = boxes.closed ∧
      (boxes.push batch consumer).registered = boxes.registered := by
    unfold Mailboxes.push
    split <;> exact ⟨rfl, rfl⟩
  refine ⟨hothers.1.trans h.isOpen, ?_, ?_, ?_⟩
  · intro other hother
    rw [push_connected]
    refine h.connected other ?_
    rw [inbox?_push] at hother
    split at hother
    next => rwa [Option.isSome_map] at hother
    next => exact hother
  · rw [push_connected]
    exact h.nodup
  · rw [push_connected, hothers.2]
    exact h.registered

/-! ## Consumers -/

theorem inbox?_registered (h : boxes.Sound) : boxes.inbox? boxes.registered = none := by
  cases hinbox : boxes.inbox? boxes.registered with
  | none => rfl
  | some inbox =>
    have hmem := h.connected boxes.registered (by rw [hinbox]; rfl)
    exact absurd (h.registered _ hmem) (Nat.lt_irrefl _)

theorem inbox?_subscribe (h : boxes.Sound) (consumer : ConsumerId) :
    boxes.subscribe.2.inbox? consumer
      = if consumer = boxes.registered then some {} else boxes.inbox? consumer := by
  simp only [Mailboxes.subscribe, inbox?, List.lookup_append]
  split
  next hsame =>
    have hnone := h.inbox?_registered
    unfold inbox? at hnone
    rw [hsame, hnone]
    simp
  next hne =>
    have hdiffer : (consumer == boxes.registered) = false := by simpa using hne
    rw [List.lookup_cons, hdiffer]
    simp

theorem connected_subscribe (h : boxes.Sound) :
    boxes.subscribe.2.connected = boxes.connected ++ [boxes.registered] := by
  simp only [Mailboxes.subscribe, h.isOpen, Bool.false_eq_true, if_false]

theorem subscribe (h : boxes.Sound) : boxes.subscribe.2.Sound where
  isOpen := h.isOpen
  connected consumer hconsumer := by
    rw [h.inbox?_subscribe] at hconsumer
    rw [h.connected_subscribe, List.mem_append, List.mem_singleton]
    split at hconsumer
    next hsame => exact Or.inr hsame
    next => exact Or.inl (h.connected consumer hconsumer)
  nodup := by
    rw [h.connected_subscribe, List.nodup_append]
    refine ⟨h.nodup, by simp, ?_⟩
    rintro consumer hconsumer _ hlast rfl
    have hlt := h.registered consumer hconsumer
    rw [List.mem_singleton.1 hlast] at hlt
    exact Nat.lt_irrefl _ hlt
  registered consumer hconsumer := by
    rw [h.connected_subscribe, List.mem_append, List.mem_singleton] at hconsumer
    rcases hconsumer with hconsumer | rfl
    · exact Nat.lt_succ_of_lt (h.registered consumer hconsumer)
    · exact Nat.lt_succ_self _

theorem unsubscribe (h : boxes.Sound) (other : ConsumerId) : (boxes.unsubscribe other).Sound where
  isOpen := h.isOpen
  connected consumer hconsumer := by
    by_cases hsame : other = consumer
    · subst hsame
      simp [Mailboxes.unsubscribe, inbox?, lookup_filter_self] at hconsumer
    · refine h.connected consumer ?_
      simp only [Mailboxes.unsubscribe, inbox?, lookup_filter_ne hsame] at hconsumer
      exact hconsumer
  nodup := h.nodup
  registered := h.registered

theorem next (h : boxes.Sound) (other : ConsumerId) : (boxes.next other).2.Sound := by
  unfold Mailboxes.next
  cases hnext : (boxes.inbox? other).bind Inbox.next? with
  | none => exact h
  | some found =>
    obtain ⟨value, rest⟩ := found
    obtain ⟨inbox, hinbox, -⟩ := Option.bind_eq_some_iff.1 hnext
    refine ⟨h.isOpen, ?_, h.nodup, h.registered⟩
    intro consumer hconsumer
    refine h.connected consumer ?_
    by_cases hsame : other = consumer
    · rw [← hsame, hinbox]
      rfl
    · unfold inbox?
      rw [← lookup_putInbox_ne hsame]
      exact hconsumer

end Sound

theorem inbox?_next_ne (boxes : Mailboxes α) (hne : other ≠ consumer) :
    (boxes.next other).2.inbox? consumer = boxes.inbox? consumer := by
  unfold next
  split
  next => exact lookup_putInbox_ne hne
  next => rfl

theorem connected_next (boxes : Mailboxes α) (other : ConsumerId) :
    (boxes.next other).2.connected = boxes.connected := by
  unfold next
  split <;> rfl

theorem isSome_inbox?_next (h : (boxes.inbox? consumer).isSome) :
    ((boxes.next consumer).2.inbox? consumer).isSome := by
  obtain ⟨inbox, hinbox⟩ := Option.isSome_iff_exists.1 h
  unfold next
  split
  next value rest _ =>
    have hput : (putInbox consumer rest boxes.inboxes).lookup consumer = some rest :=
      lookup_putInbox hinbox
    unfold inbox?
    rw [hput]
    rfl
  next => exact h

theorem nextOf_eq_none {rows : List (List α)} (h : Inbox.nextOf rows = none) :
    rows.flatten = [] := by
  induction rows with
  | nil => rfl
  | cons row later ih =>
    cases row with
    | nil => exact ih h
    | cons value rest => simp [Inbox.nextOf] at h

/-- A consumer that is told there is nothing has seen everything in its mailbox. -/
theorem next_cases (h : boxes.Sound) (hconsumer : (boxes.inbox? consumer).isSome) :
    (∃ value after, boxes.next consumer = (.ready value, after)) ∨
      boxes.next consumer = (.empty, boxes) ∧ boxes.unread consumer = [] := by
  unfold next
  cases hnext : (boxes.inbox? consumer).bind Inbox.next? with
  | some found => exact Or.inl ⟨_, _, rfl⟩
  | none =>
    have hcontains : boxes.connected.contains consumer = true := by
      rw [List.contains_iff_mem]
      exact h.connected consumer hconsumer
    refine Or.inr ⟨by simp only [hcontains, if_true], ?_⟩
    obtain ⟨inbox, hinbox⟩ := Option.isSome_iff_exists.1 hconsumer
    rw [hinbox, Option.bind_some] at hnext
    have hrows := nextOf_eq_none hnext
    simpa [unread, hinbox, Inbox.unread] using hrows

/-! ## Taking away mailboxes -/

theorem swapRemove_concat (front : List ConsumerId) (last : ConsumerId) (index : Nat) :
    swapRemove (front ++ [last]) index
      = if index < front.length then front.set index last else front := by
  unfold swapRemove
  rw [List.getLast?_concat]
  simp only [List.set_append]
  split
  next => exact List.dropLast_concat
  next =>
    cases hzero : index - front.length with
    | zero => exact List.dropLast_concat
    | succ k => exact List.dropLast_concat

theorem exists_concat_of_lt {xs : List ConsumerId} {index : Nat} (h : index < xs.length) :
    ∃ front last, xs = front ++ [last] := by
  have hne : xs ≠ [] := List.ne_nil_of_length_pos (Nat.lt_of_le_of_lt (Nat.zero_le _) h)
  exact ⟨_, _, (List.dropLast_concat_getLast hne).symm⟩

/-- Mailboxes that come before the one that is taken away stay where they are. -/
theorem take_swapRemove {xs : List ConsumerId} {index : Nat} (h : index < xs.length) :
    (swapRemove xs index).take index = xs.take index := by
  obtain ⟨front, last, rfl⟩ := exists_concat_of_lt h
  rw [List.length_append, List.length_singleton] at h
  rw [swapRemove_concat, List.take_append_of_le_length (by omega)]
  split
  next => exact List.take_set_of_le (Nat.le_refl _)
  next => rfl

/-- All others are still there. -/
theorem perm_swapRemove {xs : List ConsumerId} {index : Nat} (h : index < xs.length) :
    (xs[index] :: swapRemove xs index).Perm xs := by
  obtain ⟨front, last, rfl⟩ := exists_concat_of_lt h
  have hlast : (last :: front).Perm (front ++ [last]) :=
    (List.perm_append_singleton last front).symm
  rw [swapRemove_concat]
  rw [List.length_append, List.length_singleton] at h
  by_cases hlt : index < front.length
  · have hset : front.set index last = front.take index ++ last :: front.drop (index + 1) := by
      rw [List.set_eq_take_append_cons_drop, if_pos hlt]
    have hsplit : front = front.take index ++ front[index] :: front.drop (index + 1) := by
      rw [List.getElem_cons_drop, List.take_append_drop]
    rw [List.getElem_append_left hlt, if_pos hlt, hset]
    refine List.Perm.trans ?_ hlast
    calc (front[index] :: (front.take index ++ last :: front.drop (index + 1))).Perm
          (front[index] :: last :: (front.take index ++ front.drop (index + 1))) :=
        List.perm_middle.cons _
      _ |>.Perm (last :: front[index] :: (front.take index ++ front.drop (index + 1))) :=
        List.Perm.swap ..
      _ |>.Perm (last :: front) := by
        conv => rhs; rw [hsplit]
        exact List.perm_middle.symm.cons _
  · obtain rfl : index = front.length := by omega
    rw [if_neg (Nat.lt_irrefl _), List.getElem_concat_length rfl]
    exact hlast

/-! ## Publishing -/

/-- Giving a batch to the next mailbox serves its consumer, and nobody else. -/
theorem owed_push (h : boxes.connected.Nodup) (hserved : publication.served < boxes.connected.length)
    (consumer : ConsumerId)
    (hinbox : (boxes.inbox? boxes.connected[publication.served]).isSome) :
    (boxes.push publication.batch boxes.connected[publication.served]).unread consumer
        ++ (boxes.push publication.batch boxes.connected[publication.served]).owed
          { publication with served := publication.served + 1 } consumer
      = boxes.unread consumer ++ boxes.owed publication consumer := by
  have htake : boxes.connected.take (publication.served + 1)
      = boxes.connected.take publication.served ++ [boxes.connected[publication.served]] := by
    rw [List.take_succ_eq_append_getElem hserved]
  simp only [owed, push_connected, htake, List.mem_append, List.mem_singleton]
  by_cases hsame : consumer = boxes.connected[publication.served]
  · have hnot : consumer ∉ boxes.connected.take publication.served := by
      rw [← List.take_append_drop (publication.served + 1) boxes.connected, htake] at h
      intro hmem
      have hdisjoint := (List.nodup_append.1 (List.nodup_append.1 h).1).2.2
      exact hdisjoint consumer hmem _ (List.mem_singleton.2 rfl) hsame
    rw [if_pos (Or.inr hsame), if_neg hnot, List.append_nil, ← hsame, unread_push_self]
    rw [hsame]
    exact hinbox
  · rw [unread_push_ne hsame]
    simp only [hsame, or_false]

theorem sound_swapRemove (h : boxes.Sound) {index : Nat} (hindex : index < boxes.connected.length)
    (hgone : boxes.inbox? boxes.connected[index] = none) :
    ({ boxes with connected := swapRemove boxes.connected index } : Mailboxes α).Sound := by
  have hperm := perm_swapRemove hindex
  refine ⟨h.isOpen, ?_, ?_, ?_⟩
  · intro consumer hconsumer
    rcases List.mem_cons.1 (hperm.mem_iff.2 (h.connected consumer hconsumer)) with rfl | hmem
    · have hthere : (boxes.inbox? boxes.connected[index]).isSome := hconsumer
      rw [hgone] at hthere
      simp at hthere
    · exact hmem
  · exact (List.nodup_cons.1 (hperm.nodup_iff.2 h.nodup)).2
  · intro consumer hconsumer
    exact h.registered consumer (hperm.mem_iff.1 (List.mem_cons_of_mem _ hconsumer))

/-- What is handed out after a first step is handed out by both together. -/
theorem Hands.of_step {middle after : Mailboxes α} {given owed left : ConsumerId → List α}
    (hands : middle.Hands given left after)
    (hkept : ∀ consumer, (boxes.inbox? consumer).isSome → (middle.inbox? consumer).isSome)
    (hsame : ∀ consumer, (boxes.inbox? consumer).isSome →
      middle.unread consumer ++ given consumer = boxes.unread consumer ++ owed consumer) :
    boxes.Hands owed left after where
  sound := hands.sound
  inbox consumer hconsumer := hands.inbox consumer (hkept consumer hconsumer)
  unread consumer hconsumer := by
    rw [hands.unread consumer (hkept consumer hconsumer), hsame consumer hconsumer]

/-- **A publication that goes on either comes to an end or waits**, and then owes what it has not
given. -/
theorem proceed_cases (boxes : Mailboxes α) (publication : Publication α) (h : boxes.Sound)
    (hserved : publication.served ≤ boxes.connected.length) :
    (∃ after, boxes.proceed publication = (.published, after) ∧ after.busy = false ∧
        boxes.Hands (boxes.owed publication) (fun _ => []) after) ∨
      ∃ rest after, boxes.proceed publication = (.waiting rest, after) ∧ after.busy = true ∧
        rest.batch = publication.batch ∧ rest.inLine = publication.inLine ∧
        rest.served ≤ after.connected.length ∧
        boxes.Hands (boxes.owed publication) (after.owed rest) after := by
  fun_induction proceed boxes publication with
  | case1 boxes publication hlt consumer hgone ih =>
    -- a consumer that has gone away is owed nothing: the last one takes its place in the line
    have hnone := Option.isNone_iff_eq_none.1 hgone
    have howed : ∀ other, (boxes.inbox? other).isSome →
        ({ boxes with connected := swapRemove boxes.connected publication.served } :
          Mailboxes α).unread other
            ++ ({ boxes with connected := swapRemove boxes.connected publication.served } :
              Mailboxes α).owed publication other
          = boxes.unread other ++ boxes.owed publication other := by
      intro other _
      simp only [owed, take_swapRemove hlt]
      rfl
    have hlength := length_swapRemove boxes.connected publication.served
    rcases ih (sound_swapRemove h hlt hnone) (by simp only; omega) with
      ⟨after, hrun, hbusy, hands⟩ | ⟨rest, after, hrun, hbusy, hbatch, hline, hle, hands⟩
    · exact Or.inl ⟨after, hrun, hbusy, hands.of_step (fun _ hother => hother) howed⟩
    · exact Or.inr ⟨rest, after, hrun, hbusy, hbatch, hline, hle,
        hands.of_step (fun _ hother => hother) howed⟩
  | case2 boxes publication hlt consumer hthere hroom ih =>
    -- the next consumer has room, and what it gets it was owed
    have hinbox : (boxes.inbox? boxes.connected[publication.served]).isSome := by
      rw [Option.isSome_iff_ne_none]
      exact fun hnone => hthere (Option.isNone_iff_eq_none.2 hnone)
    have hkept : ∀ other, (boxes.inbox? other).isSome →
        ((boxes.push publication.batch consumer).inbox? other).isSome := by
      intro other hother
      rw [inbox?_push]
      split
      next => rwa [Option.isSome_map]
      next => exact hother
    rcases ih (h.push _ _) (by rw [push_connected]; exact hlt) with
      ⟨after, hrun, hbusy, hands⟩ | ⟨rest, after, hrun, hbusy, hbatch, hline, hle, hands⟩
    · exact Or.inl ⟨after, hrun, hbusy,
        hands.of_step hkept fun other _ => owed_push h.nodup hlt other hinbox⟩
    · exact Or.inr ⟨rest, after, hrun, hbusy, hbatch, hline, hle,
        hands.of_step hkept fun other _ => owed_push h.nodup hlt other hinbox⟩
  | case3 boxes publication hlt consumer hthere hfull hclosed =>
    rw [h.isOpen] at hclosed
    simp at hclosed
  | case4 boxes publication hlt consumer hthere hfull hopen =>
    exact Or.inr ⟨publication, _, rfl, rfl, rfl, rfl, hserved,
      ⟨h.isOpen, h.connected, h.nodup, h.registered⟩, fun _ hother => hother, fun _ _ => rfl⟩
  | case5 boxes publication hend =>
    refine Or.inl ⟨_, rfl, rfl, ⟨h.isOpen, h.connected, h.nodup, h.registered⟩,
      fun _ hother => hother, ?_⟩
    intro other hother
    -- everybody has been served
    have hall : boxes.connected.take publication.served = boxes.connected :=
      List.take_of_length_le (by omega)
    unfold owed
    rw [hall, if_pos (h.connected other hother)]
    rfl

theorem Sound.prune (h : boxes.Sound) : boxes.prune.Sound where
  isOpen := h.isOpen
  connected consumer hconsumer := List.mem_filter.2 ⟨h.connected consumer hconsumer, hconsumer⟩
  nodup := h.nodup.filter _
  registered consumer hconsumer := h.registered consumer (List.mem_filter.1 hconsumer).1

/-- A batch comes to all consumers, or is still owed to some. -/
theorem publish_cases (h : boxes.Sound) (hidle : boxes.busy = false) (hbatch : batch ≠ []) :
    (∃ after, boxes.publish batch = (.published, after) ∧ after.busy = false ∧
        boxes.Hands (fun _ => batch) (fun _ => []) after) ∨
      ∃ rest after, boxes.publish batch = (.waiting rest, after) ∧ after.busy = true ∧
        rest.batch = batch ∧ rest.inLine = false ∧ rest.served ≤ after.connected.length ∧
        boxes.Hands (fun _ => batch) (after.owed rest) after := by
  have hempty : batch.isEmpty = false := by simpa using hbatch
  have howed : ∀ consumer, boxes.prune.owed { batch } consumer = batch := by
    intro consumer
    simp [owed]
  unfold publish
  rw [hempty, hidle, h.isOpen]
  simp only [Bool.false_eq_true, if_false]
  rcases proceed_cases boxes.prune { batch } h.prune (Nat.zero_le _) with
    ⟨after, hrun, hbusy, hands⟩ | ⟨rest, after, hrun, hbusy, hsame, hline, hle, hands⟩
  · refine Or.inl ⟨after, hrun, hbusy, hands.sound, hands.inbox, ?_⟩
    intro consumer hconsumer
    rw [hands.unread consumer hconsumer, howed]
    rfl
  · refine Or.inr ⟨rest, after, hrun, hbusy, hsame, hline, hle, hands.sound, hands.inbox, ?_⟩
    intro consumer hconsumer
    rw [hands.unread consumer hconsumer, howed]
    rfl

end CommitLog.Queue.Mailboxes
