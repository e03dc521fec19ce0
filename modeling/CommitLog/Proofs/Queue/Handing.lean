import CommitLog.Proofs.Queue.Mailboxes
import CommitLog.Proofs.Queue.Ring
import CommitLog.Topic.Publish

/-!
# What a queue hands over

The two backends keep one promise. What a consumer has not seen, followed by what a publication
that waits still owes it, is everything that was published since it registered and that it has not
read. Publishing adds to the end (`Handed`), reading takes from the front (`next_cases`), and what
others do changes nothing of it (`Steady`).
-/

namespace CommitLog.Queue

variable {α : Type} {queue after last : Queue α} {batch : List α} {publication : Publication α}
  {progress : Progress α} {consumer other : ConsumerId}

/-- The queue is open and in order. -/
def Sound : Queue α → Prop
  | ring r => ∃ values, r.Records values
  | mailboxes boxes => boxes.Sound

/-- A consumer is registered and not gone. -/
def IsConsumer : Queue α → ConsumerId → Prop
  | ring r, consumer => (r.cursors.lookup consumer).isSome
  | mailboxes boxes, consumer => (boxes.inbox? consumer).isSome

/-- Whether a publication has begun and waits. -/
def isBusy : Queue α → Bool
  | ring _ => false
  | mailboxes boxes => boxes.busy

/-- What a publication that waits still owes a consumer. -/
def owed : Queue α → Publication α → ConsumerId → List α
  | ring _, publication, _ => publication.batch
  | mailboxes boxes, publication, consumer => boxes.owed publication consumer

/-- A publication can go on where it has stopped. -/
def Resumable : Queue α → Publication α → Prop
  | ring _, _ => True
  | mailboxes boxes, publication =>
    publication.inLine = false ∧ publication.served ≤ boxes.connected.length

/-- A batch of a length is not too large. -/
def Takes (queue : Queue α) (length : Nat) : Prop :=
  ∀ capacity, queue.capacity? = some capacity → length ≤ capacity

/-- Consumers that are owed something come to have it, except for what is left. -/
structure Hands (queue : Queue α) (owed left : ConsumerId → List α) (after : Queue α) : Prop where
  sound : after.Sound
  capacity?_eq : after.capacity? = queue.capacity?
  isConsumer : ∀ consumer, queue.IsConsumer consumer → after.IsConsumer consumer
  unread : ∀ consumer, queue.IsConsumer consumer →
    after.unread consumer ++ left consumer = queue.unread consumer ++ owed consumer

/-- How far a publication comes: to its end, or to a place where it waits. It is never refused. -/
inductive Handed (queue : Queue α) (owed : ConsumerId → List α) : Progress α → Queue α → Prop where
  | published {after : Queue α} (idle : after.isBusy = false)
      (hands : queue.Hands owed (fun _ => []) after) : Handed queue owed .published after
  | waiting {rest : Publication α} {after : Queue α} (resumable : after.Resumable rest)
      (hands : queue.Hands owed (after.owed rest) after) : Handed queue owed (.waiting rest) after

/-- Nothing has changed for a consumer but perhaps what it has not seen yet. -/
structure Steady (queue after : Queue α) (consumer : ConsumerId) : Prop where
  sound : after.Sound
  capacity?_eq : after.capacity? = queue.capacity?
  isBusy_eq : after.isBusy = queue.isBusy
  isConsumer : queue.IsConsumer consumer → after.IsConsumer consumer
  resumable : ∀ publication, queue.Resumable publication → after.Resumable publication
  owed : ∀ publication, queue.Resumable publication →
    after.owed publication consumer = queue.owed publication consumer

theorem sound_ofFanout (fanout : Fanout) : (ofFanout fanout : Queue α).Sound := by
  cases fanout with
  | ring capacity => exact ⟨[], Ring.records_ofCapacity capacity⟩
  | mailbox maxPending => exact Mailboxes.sound_ofLimit maxPending

theorem isBusy_ofFanout (fanout : Fanout) : (ofFanout fanout : Queue α).isBusy = false := by
  cases fanout <;> rfl

theorem Takes.steady {length : Nat} (h : queue.Takes length)
    (hcapacity : after.capacity? = queue.capacity?) : after.Takes length := by
  unfold Takes
  rw [hcapacity]
  exact h

/-! ## Others -/

/-- Somebody registers. -/
theorem steady_subscribe (h : queue.Sound) (consumer : ConsumerId) :
    queue.Steady queue.subscribe.2 consumer ∧
      (queue.IsConsumer consumer → queue.subscribe.2.unread consumer = queue.unread consumer) := by
  cases queue with
  | ring r =>
    obtain ⟨values, h⟩ := h
    refine ⟨⟨⟨values, h.subscribe⟩, rfl, rfl, ?_, fun _ _ => trivial, fun _ _ => rfl⟩, ?_⟩
    · intro hconsumer
      obtain ⟨cursor, hcursor⟩ := Option.isSome_iff_exists.1 hconsumer
      exact Option.isSome_iff_exists.2 ⟨cursor, Ring.lookup_append_of_lt hcursor _⟩
    · intro hconsumer
      obtain ⟨cursor, hcursor⟩ := Option.isSome_iff_exists.1 hconsumer
      have hlater : r.subscribe.2.cursors.lookup consumer = some cursor :=
        Ring.lookup_append_of_lt hcursor _
      exact (h.subscribe.unread hlater).trans (h.unread hcursor).symm
  | mailboxes boxes =>
    have hinbox : (boxes.inbox? consumer).isSome →
        boxes.subscribe.2.inbox? consumer = boxes.inbox? consumer := by
      intro hconsumer
      rw [Mailboxes.Sound.inbox?_subscribe h, if_neg]
      rintro rfl
      simp [Mailboxes.Sound.inbox?_registered h] at hconsumer
    have hconnected := Mailboxes.Sound.connected_subscribe h
    refine ⟨⟨Mailboxes.Sound.subscribe h, rfl, rfl, ?_, ?_, ?_⟩, ?_⟩
    · intro hconsumer
      show (boxes.subscribe.2.inbox? consumer).isSome
      rw [hinbox hconsumer]
      exact hconsumer
    · rintro publication ⟨hline, hserved⟩
      refine ⟨hline, ?_⟩
      rw [hconnected, List.length_append]
      omega
    · rintro publication ⟨-, hserved⟩
      show boxes.subscribe.2.owed publication consumer = boxes.owed publication consumer
      simp only [Mailboxes.owed, hconnected, List.take_append_of_le_length hserved]
    · exact fun hconsumer => Mailboxes.unread_eq_of_inbox?_eq (hinbox hconsumer)

/-- A new consumer has nothing in front of it. -/
theorem subscribe_new (h : queue.Sound) :
    queue.subscribe.2.IsConsumer queue.subscribe.1 ∧
      queue.subscribe.2.unread queue.subscribe.1 = [] := by
  cases queue with
  | ring r =>
    obtain ⟨values, h⟩ := h
    refine ⟨Option.isSome_iff_exists.2 ⟨_, h.lookup_subscribe⟩, ?_⟩
    exact (h.subscribe.unread h.lookup_subscribe).trans (List.drop_length)
  | mailboxes boxes =>
    have hinbox := Mailboxes.Sound.inbox?_subscribe h boxes.registered
    rw [if_pos rfl] at hinbox
    constructor
    · show (boxes.subscribe.2.inbox? boxes.registered).isSome
      rw [hinbox]
      rfl
    · show boxes.subscribe.2.unread boxes.registered = []
      unfold Mailboxes.unread
      rw [hinbox]
      rfl

/-- Somebody else goes. -/
theorem steady_unsubscribe (h : queue.Sound) (hne : other ≠ consumer) :
    queue.Steady (queue.unsubscribe other) consumer ∧
      (queue.IsConsumer consumer →
        (queue.unsubscribe other).unread consumer = queue.unread consumer) := by
  cases queue with
  | ring r =>
    obtain ⟨values, h⟩ := h
    have hlookup : (r.unsubscribe other).cursors.lookup consumer = r.cursors.lookup consumer :=
      lookup_filter_ne hne
    refine ⟨⟨⟨values, h.unsubscribe other⟩, rfl, rfl, ?_, fun _ _ => trivial, fun _ _ => rfl⟩, ?_⟩
    · intro hconsumer
      show ((r.unsubscribe other).cursors.lookup consumer).isSome
      rw [hlookup]
      exact hconsumer
    · intro hconsumer
      obtain ⟨cursor, hcursor⟩ := Option.isSome_iff_exists.1 hconsumer
      exact ((h.unsubscribe other).unread (hlookup.trans hcursor)).trans (h.unread hcursor).symm
  | mailboxes boxes =>
    have hinbox : (boxes.unsubscribe other).inbox? consumer = boxes.inbox? consumer :=
      lookup_filter_ne hne
    refine ⟨⟨Mailboxes.Sound.unsubscribe h other, rfl, rfl, ?_, fun _ h => h, fun _ _ => rfl⟩, ?_⟩
    · intro hconsumer
      show ((boxes.unsubscribe other).inbox? consumer).isSome
      rw [hinbox]
      exact hconsumer
    · exact fun _ => Mailboxes.unread_eq_of_inbox?_eq hinbox

/-- Somebody else polls. -/
theorem steady_next_ne (h : queue.Sound) (hne : other ≠ consumer) :
    queue.Steady (queue.next other).2 consumer ∧
      (queue.IsConsumer consumer →
        (queue.next other).2.unread consumer = queue.unread consumer) := by
  cases queue with
  | ring r =>
    obtain ⟨values, h⟩ := h
    have hlookup := Ring.lookup_next_ne r hne
    have hcapacity : (r.next other).2.capacity = r.capacity := by
      simp only [Ring.next]
      split
      next => rfl
      next =>
        split
        next => rfl
        next => split <;> rfl
    refine ⟨⟨⟨values, h.next other⟩, congrArg some hcapacity, rfl, ?_, fun _ _ => trivial,
      fun _ _ => rfl⟩, ?_⟩
    · intro hconsumer
      show ((r.next other).2.cursors.lookup consumer).isSome
      rw [hlookup]
      exact hconsumer
    · intro hconsumer
      obtain ⟨cursor, hcursor⟩ := Option.isSome_iff_exists.1 hconsumer
      exact ((h.next other).unread (hlookup.trans hcursor)).trans (h.unread hcursor).symm
  | mailboxes boxes =>
    have hinbox := Mailboxes.inbox?_next_ne boxes hne
    have hconnected := Mailboxes.connected_next boxes other
    have hbusy : (boxes.next other).2.busy = boxes.busy := by
      unfold Mailboxes.next
      split <;> rfl
    refine ⟨⟨Mailboxes.Sound.next h other, rfl, hbusy, ?_, ?_, ?_⟩, ?_⟩
    · intro hconsumer
      show ((boxes.next other).2.inbox? consumer).isSome
      rw [hinbox]
      exact hconsumer
    · rintro publication ⟨hline, hserved⟩
      exact ⟨hline, by rw [hconnected]; exact hserved⟩
    · intro publication _
      show (boxes.next other).2.owed publication consumer = boxes.owed publication consumer
      simp only [Mailboxes.owed, hconnected]
    · exact fun _ => Mailboxes.unread_eq_of_inbox?_eq hinbox

/-! ## Polling -/

theorem steady_next (h : queue.Sound) (consumer : ConsumerId) :
    queue.Steady (queue.next consumer).2 consumer := by
  cases queue with
  | ring r =>
    obtain ⟨values, h⟩ := h
    cases hcursor : r.cursors.lookup consumer with
    | none =>
      have hstay : r.next consumer = (.closed, r) := by simp only [Ring.next, hcursor]
      refine ⟨⟨values, h.next consumer⟩, ?_, rfl, ?_, fun _ _ => trivial, fun _ _ => rfl⟩
      · show some (r.next consumer).2.capacity = some r.capacity
        rw [hstay]
      · intro hconsumer
        rw [IsConsumer, hcursor] at hconsumer
        simp at hconsumer
    | some cursor =>
      rcases Nat.lt_or_ge cursor values.length with hlt | hle
      · have hmove := h.next_of_lt hcursor hlt
        refine ⟨⟨values, h.next consumer⟩, ?_, rfl, ?_, fun _ _ => trivial, fun _ _ => rfl⟩
        · show some (r.next consumer).2.capacity = some r.capacity
          rw [hmove]
          rfl
        · intro _
          show ((r.next consumer).2.cursors.lookup consumer).isSome
          rw [hmove, Ring.lookup_advanceCursor hcursor]
          rfl
      · have hstay := h.next_of_le hcursor hle
        refine ⟨⟨values, h.next consumer⟩, ?_, rfl, ?_, fun _ _ => trivial, fun _ _ => rfl⟩
        · show some (r.next consumer).2.capacity = some r.capacity
          rw [hstay]
        · intro hconsumer
          show ((r.next consumer).2.cursors.lookup consumer).isSome
          rw [hstay]
          exact hconsumer
  | mailboxes boxes =>
    have hconnected := Mailboxes.connected_next boxes consumer
    have hbusy : (boxes.next consumer).2.busy = boxes.busy := by
      unfold Mailboxes.next
      split <;> rfl
    refine ⟨Mailboxes.Sound.next h consumer, rfl, hbusy, Mailboxes.isSome_inbox?_next, ?_, ?_⟩
    · rintro publication ⟨hline, hserved⟩
      exact ⟨hline, by rw [hconnected]; exact hserved⟩
    · intro publication _
      show (boxes.next consumer).2.owed publication consumer = boxes.owed publication consumer
      simp only [Mailboxes.owed, hconnected]

/-- **A poll gives the first of what is not seen yet**, and says that there is nothing only if there
is nothing. -/
theorem next_cases (h : queue.Sound) (hconsumer : queue.IsConsumer consumer) :
    (∃ value after, queue.next consumer = (.ready value, after) ∧
        queue.unread consumer = value :: after.unread consumer) ∨
      queue.next consumer = (.empty, queue) ∧ queue.unread consumer = [] := by
  cases queue with
  | ring r =>
    obtain ⟨values, h⟩ := h
    obtain ⟨cursor, hcursor⟩ := Option.isSome_iff_exists.1 hconsumer
    rcases Nat.lt_or_ge cursor values.length with hlt | hle
    · have hmove := h.next_of_lt hcursor hlt
      have hnext : (ring r).next consumer = (.ready values[cursor], ring (r.next consumer).2) := by
        simp only [next, hmove]
      exact Or.inl ⟨_, _, hnext, unread_of_next_ready hnext⟩
    · refine Or.inr ⟨by simp only [next, h.next_of_le hcursor hle], ?_⟩
      exact (h.unread hcursor).trans (List.drop_eq_nil_of_le hle)
  | mailboxes boxes =>
    rcases Mailboxes.next_cases h hconsumer with ⟨value, after, hnext⟩ | ⟨hnext, hunread⟩
    · have hready : (mailboxes boxes).next consumer = (.ready value, mailboxes after) := by
        simp only [next, hnext]
      exact Or.inl ⟨value, _, hready, unread_of_next_ready hready⟩
    · exact Or.inr ⟨by simp only [next, hnext], hunread⟩

/-! ## Publishing -/

theorem ring_hands {r after : Ring α} {values : List α} (h : r.Records values)
    (hafter : after.Records (values ++ batch)) (hcursors : after.cursors = r.cursors)
    (hcapacity : after.capacity = r.capacity) :
    (ring r).Hands (fun _ => batch) (fun _ => []) (ring after) where
  sound := ⟨_, hafter⟩
  capacity?_eq := congrArg some hcapacity
  isConsumer consumer hconsumer := by
    show (after.cursors.lookup consumer).isSome
    rw [hcursors]
    exact hconsumer
  unread consumer hconsumer := by
    obtain ⟨cursor, hcursor⟩ := Option.isSome_iff_exists.1 hconsumer
    obtain ⟨hle, -⟩ := h.cursor _ (mem_of_lookup hcursor)
    have hlater : after.cursors.lookup consumer = some cursor := by rw [hcursors, hcursor]
    show after.unread consumer ++ [] = r.unread consumer ++ batch
    rw [h.unread hcursor, hafter.unread hlater, List.append_nil, List.drop_append_of_le_length hle]

/-- A publication that waits goes on. -/
theorem resume_handed (h : queue.Sound) (hresumable : queue.Resumable publication)
    (hrun : queue.resume publication = (progress, after)) :
    queue.Handed (queue.owed publication) progress after := by
  cases queue with
  | ring r =>
    obtain ⟨values, h⟩ := h
    rcases Ring.resume_cases h publication with
      ⟨moved, hresume, hmoved, hcursors, hcapacity⟩ | hresume
    · simp only [resume, hresume] at hrun
      obtain ⟨rfl, rfl⟩ := hrun
      exact .published rfl (ring_hands h hmoved hcursors hcapacity)
    · simp only [resume, hresume] at hrun
      obtain ⟨rfl, rfl⟩ := hrun
      exact .waiting trivial ⟨⟨values, h⟩, rfl, fun _ h => h, fun _ _ => rfl⟩
  | mailboxes boxes =>
    obtain ⟨hline, hserved⟩ := hresumable
    simp only [resume, Mailboxes.resume, hline, Bool.false_eq_true, if_false] at hrun
    rcases Mailboxes.proceed_cases boxes publication h hserved with
      ⟨moved, hproceed, hbusy, hands⟩ | ⟨rest, moved, hproceed, -, -, hrest, hle, hands⟩
    · rw [hproceed] at hrun
      obtain ⟨rfl, rfl⟩ := hrun
      exact .published hbusy ⟨hands.sound, rfl, hands.inbox, hands.unread⟩
    · rw [hproceed] at hrun
      obtain ⟨rfl, rfl⟩ := hrun
      exact .waiting ⟨hrest.trans hline, hle⟩ ⟨hands.sound, rfl, hands.inbox, hands.unread⟩

/-- A batch that is not too large is published, or waits for room. -/
theorem publish_handed (h : queue.Sound) (hidle : queue.isBusy = false) (hbatch : batch ≠ [])
    (htakes : queue.Takes batch.length) (hrun : queue.publish batch = (progress, after)) :
    queue.Handed (fun _ => batch) progress after := by
  cases queue with
  | ring r =>
    have hsound := h
    obtain ⟨values, h⟩ := h
    have hresume := Ring.publish_eq_resume h.isOpen hbatch (htakes _ rfl)
    simp only [publish, hresume] at hrun
    have hresumable : (ring r).Resumable { batch } := trivial
    exact resume_handed hsound hresumable hrun
  | mailboxes boxes =>
    rcases Mailboxes.publish_cases h hidle hbatch with
      ⟨moved, hpublish, hbusy, hands⟩ | ⟨rest, moved, hpublish, -, -, hrest, hle, hands⟩
    · simp only [publish, hpublish] at hrun
      obtain ⟨rfl, rfl⟩ := hrun
      exact .published hbusy ⟨hands.sound, rfl, hands.inbox, hands.unread⟩
    · simp only [publish, hpublish] at hrun
      obtain ⟨rfl, rfl⟩ := hrun
      exact .waiting ⟨hrest, hle⟩ ⟨hands.sound, rfl, hands.inbox, hands.unread⟩

/-! ## Transactions -/

theorem isClosed_of_sound (h : queue.Sound) : queue.isClosed = false := by
  cases queue with
  | ring r =>
    obtain ⟨values, h⟩ := h
    exact h.isOpen
  | mailboxes boxes => exact Mailboxes.Sound.isOpen h

theorem foldlM_add (batch : List α) : ∀ (tx : Transaction α),
    tx.values.length + batch.length ≤ tx.reserved →
    batch.foldlM Transaction.add tx = .ok { tx with values := tx.values ++ batch } := by
  induction batch with
  | nil =>
    intro tx _
    rw [List.append_nil]
    rfl
  | cons value later ih =>
    intro tx h
    rw [List.length_cons] at h
    have hadd : tx.add value = .ok { tx with values := tx.values ++ [value] } := by
      unfold Transaction.add
      rw [if_neg (by omega)]
    rw [List.foldlM_cons, hadd]
    have hrest := ih { tx with values := tx.values ++ [value] } (by simp; omega)
    simp only [List.append_assoc] at hrest
    exact hrest

/-- A batch that is not too large becomes a transaction. -/
theorem ofBatch_of_takes (h : queue.Sound) (htakes : queue.Takes batch.length) :
    Transaction.ofBatch queue batch = .ok ⟨batch.length, batch⟩ := by
  have hbegin : Transaction.begin queue batch.length = .ok ⟨batch.length, []⟩ := by
    unfold Transaction.begin
    rw [isClosed_of_sound h]
    cases hcapacity : queue.capacity? with
    | none => rfl
    | some capacity =>
      have hle := htakes capacity hcapacity
      simp only [Bool.false_eq_true, if_false, if_neg (Nat.not_lt.2 hle)]
  have hadd := foldlM_add batch ⟨batch.length, []⟩ (by simp)
  unfold Transaction.ofBatch
  rw [hbegin]
  exact hadd

end CommitLog.Queue
