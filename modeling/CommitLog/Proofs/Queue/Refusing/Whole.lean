import CommitLog.Proofs.Queue.Refusing.Order

/-!
# Refusals

A batch that may not wait is refused exactly when there is no room for it: `Obstructed` says what
there may be in its way, in terms of what the consumers of a session have in front of them. A
consumer that is gone is in nobody's way. The batch comes back as it was, and nobody is ever told
anything else for it (`refused_iff_obstructed`).
-/

namespace CommitLog.Queue.Ring

variable {α : Type} {ring : Ring α} {values : List α} {consumer : ConsumerId} {cursor : Nat}

/-- The gate is where somebody is, or where everybody is. -/
theorem gate_eq_or (ring : Ring α) :
    ring.gate = ring.published ∨ ∃ entry ∈ ring.cursors, ring.gate = entry.2 := by
  have hfold : ∀ (cursors : List Nat) (start : Nat),
      cursors.foldl min start = start ∨ cursors.foldl min start ∈ cursors := by
    intro cursors
    induction cursors with
    | nil => intro start; exact Or.inl rfl
    | cons first later ih =>
      intro start
      rw [List.foldl_cons]
      rcases ih (min start first) with hsame | hmem
      · rw [hsame]
        rcases Nat.le_total start first with hle | hle
        · exact Or.inl (Nat.min_eq_left hle)
        · rw [Nat.min_eq_right hle]
          exact Or.inr List.mem_cons_self
      · exact Or.inr (List.mem_cons_of_mem _ hmem)
  rcases hfold (ring.cursors.map Prod.snd) ring.published with hsame | hmem
  · exact Or.inl hsame
  · obtain ⟨entry, hentry, hgate⟩ := List.mem_map.1 hmem
    exact Or.inr ⟨entry, hentry, hgate.symm⟩

theorem Records.length_unread (h : ring.Records values)
    (hcursor : ring.cursors.lookup consumer = some cursor) :
    (ring.unread consumer).length = values.length - cursor := by
  rw [h.unread hcursor, List.length_drop]

/-- No consumer has more in front of it than the ring holds. -/
theorem Records.length_unread_le (h : ring.Records values) (consumer : ConsumerId) :
    (ring.unread consumer).length ≤ ring.capacity := by
  cases hcursor : ring.cursors.lookup consumer with
  | none => simp [Ring.unread, hcursor]
  | some cursor =>
    have hlag : values.length ≤ cursor + ring.capacity := (h.cursor _ (mem_of_lookup hcursor)).2
    rw [h.length_unread hcursor]
    omega

/-- The gate holds a batch back exactly when some consumer is too far behind for it. -/
theorem Records.short_iff (h : ring.Records values) (htidy : ring.Tidy) {length : Nat}
    (hfits : length ≤ ring.capacity) :
    ring.capacity < ring.claimed + length - ring.gate ↔
      ∃ consumer, (ring.cursors.lookup consumer).isSome ∧
        ring.capacity < (ring.unread consumer).length + length := by
  have hclaimed := h.claimed
  have hpublished := h.published
  constructor
  · intro hshort
    rcases ring.gate_eq_or with hgate | ⟨⟨consumer, cursor⟩, hentry, hgate⟩
    · rw [hgate] at hshort
      omega
    · have hcursor := lookup_of_mem htidy.distinct hentry
      refine ⟨consumer, Option.isSome_iff_exists.2 ⟨cursor, hcursor⟩, ?_⟩
      rw [h.length_unread hcursor]
      simp only at hgate
      omega
  · rintro ⟨consumer, hconsumer, hshort⟩
    obtain ⟨cursor, hcursor⟩ := Option.isSome_iff_exists.1 hconsumer
    have hgate := (gate_le ring).2 _ (mem_of_lookup hcursor)
    rw [h.length_unread hcursor] at hshort
    simp only at hgate
    omega

end CommitLog.Queue.Ring

namespace CommitLog.Queue.Mailboxes

variable {α : Type} {boxes : Mailboxes α}

/-- There is a full mailbox among those that are left exactly when somebody who is there has one. -/
theorem any_isFull_iff (h : boxes.Sound) (htidy : boxes.Tidy) :
    boxes.prune.connected.any boxes.prune.isFull = true ↔
      ∃ consumer inbox, boxes.inbox? consumer = some inbox ∧
        inbox.pending.length = boxes.limit := by
  rw [List.any_eq_true]
  constructor
  · rintro ⟨consumer, -, hfull⟩
    obtain ⟨inbox, hinbox, hle⟩ := isFull_eq_true_iff.1 hfull
    exact ⟨consumer, inbox, hinbox, Nat.le_antisymm (htidy.within consumer inbox hinbox) hle⟩
  · rintro ⟨consumer, inbox, hinbox, hload⟩
    have hthere : (boxes.inbox? consumer).isSome := Option.isSome_iff_exists.2 ⟨inbox, hinbox⟩
    exact ⟨consumer, List.mem_filter.2 ⟨h.connected consumer hthere, hthere⟩,
      isFull_eq_true_iff.2 ⟨inbox, hinbox, Nat.le_of_eq hload.symm⟩⟩

end CommitLog.Queue.Mailboxes

namespace CommitLog.Queue

variable {α : Type} {batch : List α} {session after : Session α} {reason : Error}

/-! ## What is in the way of a batch -/

/-- What a consumer has in front of it leaves no room for a batch: in a ring it would have more in
front of it than there are slots, with a mailbox it has as many batches there as the mailbox
holds. -/
def Crowds (queue : Queue α) (consumer : ConsumerId) (batch : List α) : Prop :=
  match queue with
  | ring r => r.capacity < (r.unread consumer).length + batch.length
  | mailboxes boxes =>
    ∃ inbox, boxes.inbox? consumer = some inbox ∧ inbox.pending.length = boxes.limit

/-- Why a session cannot publish a batch without waiting. -/
inductive Session.Obstructed (session : Session α) (batch : List α) : Error → Prop where
  | closed (isClosed : session.queue.isClosed = true) : Obstructed session batch .closed
  /-- The queue can never hold the batch. -/
  | tooLong {capacity : Nat} (isOpen : session.queue.isClosed = false)
      (bound : session.queue.capacity? = some capacity) (long : capacity < batch.length) :
      Obstructed session batch (.batchTooLarge batch.length capacity)
  /-- A consumer has too much in front of it. -/
  | crowded {name : String} {consumer : ConsumerId} (isOpen : session.queue.isClosed = false)
      (takes : session.queue.Takes batch.length)
      (named : session.consumers.lookup name = some consumer)
      (crowds : session.queue.Crowds consumer batch) : Obstructed session batch .full

/-- There is one reason at a time. -/
theorem Session.Obstructed.unique {one other : Error} (hone : session.Obstructed batch one)
    (hother : session.Obstructed batch other) : one = other := by
  cases hone with
  | closed hclosed =>
    cases hother with
    | closed => rfl
    | tooLong hopen => rw [hopen] at hclosed; cases hclosed
    | crowded hopen => rw [hopen] at hclosed; cases hclosed
  | tooLong hopen hbound hlong =>
    cases hother with
    | closed hclosed => rw [hopen] at hclosed; cases hclosed
    | tooLong _ hbound' =>
      obtain rfl := Option.some.inj (hbound.symm.trans hbound')
      rfl
    | crowded _ htakes => exact absurd hlong (Nat.not_lt.2 (htakes _ hbound))
  | crowded hopen htakes =>
    cases hother with
    | closed hclosed => rw [hopen] at hclosed; cases hclosed
    | tooLong _ hbound hlong => exact absurd hlong (Nat.not_lt.2 (htakes _ hbound))
    | crowded => rfl

/-- What becomes of a batch that a queue takes if there is room: it is taken, unless a consumer
leaves no room for it. -/
theorem tried_of_takes {queue : Queue α} (h : queue.Sound) (htidy : queue.Tidy)
    (hbatch : batch ≠ []) (htakes : queue.Takes batch.length) :
    (∃ consumer, queue.IsConsumer consumer ∧ queue.Crowds consumer batch) ∧
        queue.tried batch = (.error ⟨.full, batch⟩, queue) ∨
      (∀ consumer, queue.IsConsumer consumer → ¬queue.Crowds consumer batch) ∧
        ∃ after, queue.tried batch = (.ok (), after) := by
  have hempty : ¬batch.isEmpty = true := by simpa using hbatch
  cases queue with
  | ring r =>
    obtain ⟨values, hvalues⟩ := h
    have hfits : batch.length ≤ r.capacity := htakes r.capacity rfl
    have hshort := hvalues.short_iff htidy hfits
    have hopen : ¬r.closed = true := by simp [hvalues.isOpen]
    simp only [tried, tryPublish, Ring.tryPublish, if_neg hempty,
      Ring.refusal?_of_le hvalues.isOpen hfits, Ring.claim, if_neg hopen]
    by_cases hroom : r.capacity < r.claimed + batch.length - r.gate
    · rw [if_pos hroom]
      exact Or.inl ⟨hshort.1 hroom, rfl⟩
    · rw [if_neg hroom]
      exact Or.inr ⟨fun consumer hthere hcrowds => hroom (hshort.2 ⟨consumer, hthere, hcrowds⟩),
        _, rfl⟩
  | mailboxes boxes =>
    have hsound : boxes.Sound := h
    have hfull := Mailboxes.any_isFull_iff hsound htidy
    have hopen : ¬boxes.closed = true := by simp [hsound.isOpen]
    simp only [tried, tryPublish, Mailboxes.tryPublish, if_neg hempty, if_neg hopen]
    by_cases hroom : boxes.prune.connected.any boxes.prune.isFull = true
    · rw [if_pos hroom]
      obtain ⟨consumer, inbox, hinbox, hload⟩ := hfull.1 hroom
      exact Or.inl ⟨⟨consumer, Option.isSome_iff_exists.2 ⟨inbox, hinbox⟩, inbox, hinbox, hload⟩,
        rfl⟩
    · rw [if_neg hroom]
      refine Or.inr ⟨fun consumer _ hcrowds => hroom (hfull.2 ?_), _, rfl⟩
      obtain ⟨inbox, hinbox, hload⟩ := hcrowds
      exact ⟨consumer, inbox, hinbox, hload⟩

/-- Nothing is as good as published. -/
theorem tried_nil (queue : Queue α) : queue.tried [] = (.ok (), queue) := by
  cases queue <;> rfl

theorem length_unread_le {queue : Queue α} (h : queue.Sound) {capacity : Nat}
    (hcapacity : queue.capacity? = some capacity) (consumer : ConsumerId) :
    (queue.unread consumer).length ≤ capacity := by
  cases queue with
  | ring r =>
    obtain ⟨values, hvalues⟩ := h
    obtain rfl := Option.some.inj hcapacity
    exact hvalues.length_unread_le consumer
  | mailboxes boxes => cases hcapacity

namespace Session.InOrder

/-- The names of a session lead to the consumers that are there. -/
theorem isConsumer_iff (h : session.InOrder) (consumer : ConsumerId) :
    session.queue.IsConsumer consumer ↔
      ∃ name, session.consumers.lookup name = some consumer := by
  constructor
  · exact h.attended.named consumer
  · rintro ⟨name, hname⟩
    exact h.present name consumer hname

/-- A batch is refused for what is in its way, and comes back; if nothing is, it is taken. -/
theorem tried_cases (h : session.InOrder) (hbatch : batch ≠ []) :
    (∃ reason, session.Obstructed batch reason ∧
      session.queue.tried batch = (.error ⟨reason, batch⟩, session.queue)) ∨
    (∀ reason, ¬session.Obstructed batch reason) ∧
      ∃ after, session.queue.tried batch = (.ok (), after) := by
  obtain ⟨live, spec, hcarries⟩ := h.carries
  cases hclosed : spec.closed with
  | true =>
    have hqueue : session.queue = live.close := by
      rw [hcarries.queue_eq, hclosed]
      rfl
    refine Or.inl ⟨.closed, .closed (by rw [hqueue, isClosed_close]), ?_⟩
    rw [hqueue, tried_close, if_neg hbatch]
  | false =>
    have hqueue : session.queue = live := by
      rw [hcarries.queue_eq, hclosed]
      rfl
    have hsound : session.queue.Sound := by
      rw [hqueue]
      exact hcarries.sound
    have hopen := isClosed_of_sound hsound
    by_cases htakes : session.queue.Takes batch.length
    · rcases tried_of_takes hsound h.attended.tidy hbatch htakes with
        ⟨⟨consumer, hthere, hcrowds⟩, htried⟩ | ⟨hroom, after, htried⟩
      · obtain ⟨name, hname⟩ := (h.isConsumer_iff consumer).1 hthere
        exact Or.inl ⟨.full, .crowded hopen htakes hname hcrowds, htried⟩
      · refine Or.inr ⟨fun reason hobstructed => ?_, after, htried⟩
        cases hobstructed with
        | closed hclosed => rw [hopen] at hclosed; cases hclosed
        | tooLong _ hbound hlong => exact absurd hlong (Nat.not_lt.2 (htakes _ hbound))
        | crowded _ _ hname hcrowds => exact hroom _ (h.present _ _ hname) hcrowds
    · obtain ⟨r, hring, hlong⟩ := exists_ring_of_not_takes htakes
      have hring' : r.closed = false := by
        rw [hring] at hopen
        exact hopen
      have hrefused : r.tryPublish batch
          = .error ⟨.batchTooLarge batch.length r.capacity, batch⟩ := by
        unfold Ring.tryPublish
        rw [if_neg (by simpa using hbatch), Ring.refusal?_of_lt hring' hlong]
      refine Or.inl ⟨_, .tooLong hopen (by rw [hring]; rfl) hlong, ?_⟩
      rw [hring]
      simp only [tried, Queue.tryPublish, hrefused]
      rfl

/-- No consumer has more in front of it than there is room for. -/
theorem within (h : session.InOrder) (consumer : ConsumerId) :
    (∀ r, session.queue = .ring r → (r.unread consumer).length ≤ r.capacity) ∧
      ∀ boxes inbox, session.queue = .mailboxes boxes → boxes.inbox? consumer = some inbox →
        inbox.pending.length ≤ boxes.limit := by
  constructor
  · intro r hring
    obtain ⟨live, spec, hcarries⟩ := h.carries
    have hcapacity := capacity?_closeIf spec.closed live
    have hunread := unread_closeIf spec.closed live consumer
    rw [← hcarries.queue_eq, hring] at hcapacity hunread
    have hbound := length_unread_le hcarries.sound hcapacity.symm consumer
    rw [← hunread] at hbound
    exact hbound
  · intro boxes inbox hboxes hinbox
    have htidy := h.attended.tidy
    rw [hboxes] at htidy
    exact Mailboxes.Tidy.within htidy consumer inbox hinbox

end Session.InOrder

/-! ## Refusals are exact -/

/-- **A batch that may not wait is refused exactly when something is in its way**, and a refusal is
without effect. This holds in every state that requests lead to, of either backend: an empty batch
is taken and changes nothing; any other comes back as it was, with the reason, exactly when the
queue is closed, or can never hold it, or some consumer that is there leaves no room for it.
Nobody is told anything else for the refusal, nor for the mailboxes of consumers that are gone
having been taken away. No consumer ever has more in front of it than there is room for. -/
theorem refused_iff_obstructed (fanout : Fanout) {requests : List (Request α)}
    {answers : List (Answer α)}
    (hrun : (serveAll requests).run { queue := .ofFanout fanout } = some (answers, session))
    (batch : List α) :
    (∀ consumer, session.queue.IsConsumer consumer ↔
      ∃ name, session.consumers.lookup name = some consumer) ∧
    (∀ consumer,
      (∀ r, session.queue = .ring r → (r.unread consumer).length ≤ r.capacity) ∧
      ∀ boxes inbox, session.queue = .mailboxes boxes → boxes.inbox? consumer = some inbox →
        inbox.pending.length ≤ boxes.limit) ∧
    ∃ result after,
      (Request.tryPublish batch).serve.run session = some (.published result, after) ∧
      (∀ rejected, result = .error rejected ↔
        batch ≠ [] ∧ rejected.batch = batch ∧ session.Obstructed batch rejected.reason) ∧
      (batch = [] → after = session) ∧
      (∀ rejected, result = .error rejected → after = session ∧
        session.swept.queue.consumerCount = session.queue.consumerCount ∧
        ∀ later, ((serveAll later).run session.swept).map Prod.fst
          = ((serveAll later).run session).map Prod.fst) := by
  have h : session.InOrder := (Session.InOrder.start fanout).serveAll hrun
  refine ⟨h.isConsumer_iff, h.within, _, _, run_tryPublish h.jobs batch, ?_, ?_, ?_⟩
  · intro rejected
    by_cases hbatch : batch = []
    · rw [hbatch, tried_nil]
      simp
    · rcases h.tried_cases hbatch with ⟨reason, hreason, htried⟩ | ⟨hnone, after, htried⟩
      · rw [htried]
        constructor
        · intro hrejected
          obtain rfl := Except.error.inj hrejected
          exact ⟨hbatch, rfl, hreason⟩
        · rintro ⟨-, hsame, hobstructed⟩
          rw [hreason.unique hobstructed, ← hsame]
      · rw [htried]
        constructor
        · intro hrejected
          cases hrejected
        · rintro ⟨-, -, hobstructed⟩
          exact absurd hobstructed (hnone _)
  · intro hbatch
    rw [hbatch, tried_nil]
  · intro rejected hrejected
    refine ⟨?_, consumerCount_pruned session.queue, h.told_swept⟩
    by_cases hbatch : batch = []
    · rw [hbatch, tried_nil]
    · rcases h.tried_cases hbatch with ⟨reason, -, htried⟩ | ⟨-, after, htried⟩
      · rw [htried]
      · rw [htried] at hrejected
        cases hrejected

/-- A ring of two slots with one value that somebody has not read: two more find no room, and come
back. The consumer that was dropped has no part in it. -/
theorem refused_iff_obstructed_of_unread_value :
    let requests : List (Request Nat) :=
      [.subscribe "a", .subscribe "b", .publish [1, 2], .next "a", .unsubscribe "b"]
    ∃ answers session rejected,
      (serveAll requests).run { queue := .ofFanout (.ring 2) } = some (answers, session) ∧
        (Request.tryPublish [3, 4]).serve.run session
          = some (.published (.error rejected), session) ∧
        rejected.batch = [3, 4] ∧ session.Obstructed [3, 4] rejected.reason := by
  intro requests
  have hring : ((serveAll requests).run { queue := .ofFanout (.ring 2) }).any
      (fun run => (run.2.queue.tried [3, 4]).1.toOption.isNone) = true := by decide +kernel
  obtain ⟨⟨answers, session⟩, hrun, hrefused⟩ := (Option.any_eq_true _ _).1 hring
  obtain ⟨-, -, result, after, hserve, hexact, -, hafter⟩ :=
    refused_iff_obstructed (.ring 2) hrun [3, 4]
  have hjobs := ((Session.InOrder.start (.ring 2)).serveAll hrun).jobs
  have htried := hserve.symm.trans (run_tryPublish hjobs [3, 4])
  obtain ⟨hresult, -⟩ := Prod.mk.inj (Option.some.inj htried)
  obtain rfl := Answer.published.inj hresult
  cases hanswer : (session.queue.tried [3, 4]).1 with
  | ok taken =>
    rw [hanswer] at hrefused
    cases hrefused
  | error rejected =>
    obtain ⟨-, hbatch, hobstructed⟩ := (hexact rejected).1 hanswer
    rw [hanswer, (hafter rejected hanswer).1] at hserve
    exact ⟨answers, session, rejected, hrun, hserve, hbatch, hobstructed⟩

end CommitLog.Queue
