import CommitLog.Queue.Transaction

/-!
# What is in a queue was put there

Whatever state a queue is in, open or closed, the values in it are values that were published: an
operation moves them about or takes them out, and only a publication brings new ones, those of its
batch. A bound on the values (`Among`) that holds for the batches holds for the queue, and so for
everything that a consumer will ever be given.
-/

namespace CommitLog.Queue

variable {α : Type} {values more batch : List α} {publication : Publication α}
  {progress : Progress α} {consumer : ConsumerId}

/-- A publication that waits offers nothing but these values. -/
def Progress.Among (values : List α) : Progress α → Prop
  | .waiting rest => ∀ value ∈ rest.batch, value ∈ values
  | _ => True

namespace Ring

variable {ring after : Ring α}

/-- Every slot that was ever filled holds one of these values. -/
def Among (values : List α) (ring : Ring α) : Prop :=
  ∀ (slot : Nat) (value : α), ring.slots[slot]? = some (some value) → value ∈ values

theorem among_ofCapacity (values : List α) (capacity : Nat) :
    (ofCapacity capacity).Among values := by
  intro slot value hslot
  rw [ofCapacity, Array.getElem?_replicate] at hslot
  split at hslot <;> simp at hslot

theorem slots_next (ring : Ring α) (consumer : ConsumerId) :
    (ring.next consumer).2.slots = ring.slots := by
  unfold next
  split
  next => rfl
  next =>
    split
    next => rfl
    next =>
      dsimp only
      split <;> rfl

theorem among_fill (batch : List α) : ∀ (slots : Array (Option α)) (number : Nat),
    (∀ (slot : Nat) (value : α), slots[slot]? = some (some value) → value ∈ values) →
    (∀ value ∈ batch, value ∈ values) →
    ∀ (slot : Nat) (value : α), (fill slots number batch)[slot]? = some (some value) →
      value ∈ values := by
  induction batch with
  | nil => exact fun _ _ h _ => h
  | cons first later ih =>
    intro slots number h hbatch
    refine ih _ _ ?_ fun value hvalue => hbatch value (List.mem_cons_of_mem _ hvalue)
    intro slot value hslot
    rw [Array.getElem?_setIfInBounds] at hslot
    split at hslot
    next =>
      split at hslot
      next =>
        obtain rfl := Option.some.inj (Option.some.inj hslot)
        exact hbatch _ List.mem_cons_self
      next => simp at hslot
    next => exact h slot value hslot

theorem Among.resume (h : ring.Among values) (hbatch : ∀ value ∈ publication.batch, value ∈ values)
    (hrun : ring.resume publication = (progress, after)) :
    after.Among values ∧ progress.Among values := by
  unfold Ring.resume claim at hrun
  split at hrun
  next start claimed hclaim =>
    obtain ⟨rfl, rfl⟩ := hrun
    split at hclaim
    next => simp at hclaim
    next =>
      split at hclaim
      next => simp at hclaim
      next =>
        obtain ⟨rfl, rfl⟩ := Prod.mk.inj (Except.ok.inj hclaim)
        exact ⟨among_fill _ _ _ h hbatch, trivial⟩
  next =>
    obtain ⟨rfl, rfl⟩ := hrun
    exact ⟨h, hbatch⟩
  next =>
    obtain ⟨rfl, rfl⟩ := hrun
    exact ⟨h, trivial⟩

theorem Among.publish (h : ring.Among values) (hbatch : ∀ value ∈ batch, value ∈ values)
    (hrun : ring.publish batch = (progress, after)) :
    after.Among values ∧ progress.Among values := by
  unfold Ring.publish at hrun
  split at hrun
  next =>
    obtain ⟨rfl, rfl⟩ := hrun
    exact ⟨h, trivial⟩
  next =>
    split at hrun
    next =>
      obtain ⟨rfl, rfl⟩ := hrun
      exact ⟨h, trivial⟩
    next => exact h.resume hbatch hrun

end Ring

namespace Mailboxes

variable {boxes after : Mailboxes α} {inbox : Inbox α}

/-- Every mailbox holds none but these values. -/
def Among (values : List α) (boxes : Mailboxes α) : Prop :=
  ∀ entry ∈ boxes.inboxes, ∀ value ∈ entry.2.unread, value ∈ values

theorem mem_of_inbox? (h : boxes.inbox? consumer = some inbox) :
    ∃ entry ∈ boxes.inboxes, entry.2 = inbox := by
  obtain ⟨front, later, hsplit, -⟩ := List.lookup_eq_some_iff.1 h
  exact ⟨(consumer, inbox), by rw [hsplit]; simp, rfl⟩

theorem mem_putInbox {inboxes : List (ConsumerId × Inbox α)} {entry : ConsumerId × Inbox α}
    (h : entry ∈ putInbox consumer inbox inboxes) : entry.2 = inbox ∨ entry ∈ inboxes := by
  induction inboxes with
  | nil => exact Or.inr h
  | cons head rest ih =>
    unfold putInbox at h
    split at h
    next =>
      rcases List.mem_cons.1 h with rfl | h
      · exact Or.inl rfl
      · exact Or.inr (List.mem_cons_of_mem _ h)
    next =>
      rcases List.mem_cons.1 h with rfl | h
      · exact Or.inr List.mem_cons_self
      · exact (ih h).imp_right (List.mem_cons_of_mem _)

theorem Among.subscribe (h : boxes.Among values) : boxes.subscribe.2.Among values := by
  intro entry hentry
  rcases List.mem_append.1 hentry with hentry | hentry
  · exact h entry hentry
  · rw [List.mem_singleton.1 hentry]
    exact fun value hvalue => by simp [Inbox.unread] at hvalue

theorem Among.unsubscribe (h : boxes.Among values) (consumer : ConsumerId) :
    (boxes.unsubscribe consumer).Among values :=
  fun entry hentry => h entry (List.mem_filter.1 hentry).1

theorem Among.next (h : boxes.Among values) (consumer : ConsumerId) :
    (boxes.next consumer).2.Among values := by
  unfold Mailboxes.next
  split
  next value rest hnext =>
    obtain ⟨inbox, hinbox, hrest⟩ := Option.bind_eq_some_iff.1 hnext
    obtain ⟨old, hold, rfl⟩ := mem_of_inbox? hinbox
    intro entry hentry other hother
    rcases mem_putInbox hentry with rfl | hentry
    · refine h old hold other ?_
      rw [Inbox.unread_of_next? hrest]
      exact List.mem_cons_of_mem _ hother
    · exact h entry hentry other hother
  next => exact h

theorem Among.push (h : boxes.Among values) (hbatch : ∀ value ∈ batch, value ∈ values)
    (consumer : ConsumerId) : (boxes.push batch consumer).Among values := by
  unfold Mailboxes.push
  split
  next inbox hinbox =>
    obtain ⟨old, hold, rfl⟩ := mem_of_inbox? hinbox
    intro entry hentry value hvalue
    rcases mem_putInbox hentry with hsame | hentry
    · rw [hsame] at hvalue
      rcases List.mem_append.1 (by simpa [Inbox.unread, Inbox.push] using hvalue :
        value ∈ old.2.unread ++ batch) with hvalue | hvalue
      · exact h old hold value hvalue
      · exact hbatch value hvalue
    · exact h entry hentry value hvalue
  next => exact h

theorem Among.proceed (h : boxes.Among values)
    (hbatch : ∀ value ∈ publication.batch, value ∈ values)
    (hrun : boxes.proceed publication = (progress, after)) :
    after.Among values ∧ progress.Among values := by
  fun_induction Mailboxes.proceed boxes publication with
  | case1 boxes publication hlt consumer hgone ih => exact ih h hbatch hrun
  | case2 boxes publication hlt consumer hthere hroom ih => exact ih (h.push hbatch _) hbatch hrun
  | case3 boxes publication hlt consumer hthere hfull hclosed =>
    obtain ⟨rfl, rfl⟩ := hrun
    exact ⟨h, trivial⟩
  | case4 boxes publication hlt consumer hthere hfull hopen =>
    obtain ⟨rfl, rfl⟩ := hrun
    exact ⟨h, hbatch⟩
  | case5 boxes publication hend =>
    obtain ⟨rfl, rfl⟩ := hrun
    exact ⟨h, trivial⟩

theorem Among.publish (h : boxes.Among values) (hbatch : ∀ value ∈ batch, value ∈ values)
    (hrun : boxes.publish batch = (progress, after)) :
    after.Among values ∧ progress.Among values := by
  unfold Mailboxes.publish at hrun
  split at hrun
  next =>
    obtain ⟨rfl, rfl⟩ := hrun
    exact ⟨h, trivial⟩
  next =>
    split at hrun
    next =>
      obtain ⟨rfl, rfl⟩ := hrun
      exact ⟨h, hbatch⟩
    next =>
      split at hrun
      next =>
        obtain ⟨rfl, rfl⟩ := hrun
        exact ⟨h, trivial⟩
      next =>
        have hpruned : boxes.prune.Among values := h
        exact hpruned.proceed hbatch hrun

theorem Among.resume (h : boxes.Among values)
    (hbatch : ∀ value ∈ publication.batch, value ∈ values)
    (hrun : boxes.resume publication = (progress, after)) :
    after.Among values ∧ progress.Among values := by
  unfold Mailboxes.resume at hrun
  split at hrun
  next => exact h.publish hbatch hrun
  next => exact h.proceed hbatch hrun

end Mailboxes

variable {queue after : Queue α}

/-- There are none but these values in a queue. -/
def Among (values : List α) : Queue α → Prop
  | ring r => r.Among values
  | mailboxes boxes => boxes.Among values

theorem among_ofFanout (values : List α) (fanout : Fanout) : (ofFanout fanout).Among values := by
  cases fanout with
  | ring capacity => exact Ring.among_ofCapacity values capacity
  | mailbox maxPending => exact fun entry hentry => by simp [Mailboxes.ofLimit] at hentry

namespace Among

theorem mono (h : queue.Among values) (hsub : ∀ value ∈ values, value ∈ more) :
    queue.Among more := by
  cases queue with
  | ring r => exact fun slot value hslot => hsub value (h slot value hslot)
  | mailboxes boxes => exact fun entry hentry value hvalue => hsub value (h entry hentry value hvalue)

theorem subscribe (h : queue.Among values) : queue.subscribe.2.Among values := by
  cases queue with
  | ring r => exact h
  | mailboxes boxes => exact Mailboxes.Among.subscribe h

theorem unsubscribe (h : queue.Among values) (consumer : ConsumerId) :
    (queue.unsubscribe consumer).Among values := by
  cases queue with
  | ring r => exact h
  | mailboxes boxes => exact Mailboxes.Among.unsubscribe h consumer

theorem next (h : queue.Among values) (consumer : ConsumerId) :
    (queue.next consumer).2.Among values := by
  cases queue with
  | ring r =>
    show ∀ (slot : Nat) (value : α), (r.next consumer).2.slots[slot]? = some (some value) → _
    rw [Ring.slots_next]
    exact h
  | mailboxes boxes => exact Mailboxes.Among.next h consumer

theorem stop (h : queue.Among values) : queue.stop.Among values := by
  cases queue <;> exact h

theorem disconnect (h : queue.Among values) : queue.disconnect.Among values := by
  cases queue <;> exact h

theorem close (h : queue.Among values) : queue.close.Among values := h.stop.disconnect

/-- A publication brings the values of its batch, and no others. -/
theorem publish (h : queue.Among values) (hbatch : ∀ value ∈ batch, value ∈ values)
    (hrun : queue.publish batch = (progress, after)) :
    after.Among values ∧ progress.Among values := by
  cases queue with
  | ring r =>
    obtain ⟨rfl, rfl⟩ := hrun
    exact Ring.Among.publish h hbatch rfl
  | mailboxes boxes =>
    obtain ⟨rfl, rfl⟩ := hrun
    exact Mailboxes.Among.publish h hbatch rfl

theorem resume (h : queue.Among values) (hbatch : ∀ value ∈ publication.batch, value ∈ values)
    (hrun : queue.resume publication = (progress, after)) :
    after.Among values ∧ progress.Among values := by
  cases queue with
  | ring r =>
    obtain ⟨rfl, rfl⟩ := hrun
    exact Ring.Among.resume h hbatch rfl
  | mailboxes boxes =>
    obtain ⟨rfl, rfl⟩ := hrun
    exact Mailboxes.Among.resume h hbatch rfl

end Among

/-- A batch that becomes a transaction is the transaction. -/
theorem values_of_ofBatch {tx : Transaction α} (h : Transaction.ofBatch queue batch = .ok tx) :
    tx.values = batch := by
  have hadd : ∀ (batch : List α) (tx last : Transaction α),
      batch.foldlM Transaction.add tx = .ok last → last.values = tx.values ++ batch := by
    intro batch
    induction batch with
    | nil =>
      intro tx last hlast
      obtain rfl := Except.ok.inj hlast
      exact (List.append_nil _).symm
    | cons value later ih =>
      intro tx last hlast
      rw [List.foldlM_cons] at hlast
      unfold Transaction.add at hlast
      split at hlast
      next => simp [bind, Except.bind] at hlast
      next =>
        rw [ih _ _ hlast, List.append_assoc]
        rfl
  unfold Transaction.ofBatch at h
  cases hbegin : Transaction.begin queue batch.length with
  | error reason => simp [hbegin, bind, Except.bind] at h
  | ok first =>
    rw [hbegin] at h
    have hnone : first.values = [] := by
      unfold Transaction.begin at hbegin
      split at hbegin
      next => simp at hbegin
      next =>
        split at hbegin
        next =>
          split at hbegin
          next => simp at hbegin
          next => rw [← Except.ok.inj hbegin]
        next => rw [← Except.ok.inj hbegin]
    rw [hadd batch first tx h, hnone, List.nil_append]

end CommitLog.Queue
