import CommitLog.Proofs.Queue.Draining

/-!
# Both backends carry out the broadcast

A whole session is a run of the broadcast, whichever backend serves it. As long as no request is
refused for want of room the broadcast has no choice, and so two sessions with different backends
are told the same (`broadcast_refinement`).

Whether there is room shows in what the consumers have in front of them (`HasRoom`): exactly then
a request is answered, and is not refused for want of room (`hasRoom_iff`). So two backends that
have room for every request when its turn comes serve the same requests, with the same answers
(`serveAll_of_room`).
-/

namespace CommitLog.Queue

variable {α : Type} {live live' queue : Queue α} {session one other after last : Session α}
  {spec : Broadcast α} {request : Request α} {requests : List (Request α)} {answer : Answer α}
  {answers : List (Answer α)} {batch : List α} {reason : Error}

/-! ## Room for a batch -/

/-- A batch that a queue can hold is published at once exactly if every consumer leaves room. -/
theorem publish_eq_published_iff (h : queue.Sound) (hidle : queue.isBusy = false)
    (htidy : queue.Tidy) (hbatch : batch ≠ []) (htakes : queue.Takes batch.length) :
    (queue.publish batch).1 = .published ↔
      ∀ consumer, queue.IsConsumer consumer → ¬queue.Crowds consumer batch := by
  cases queue with
  | ring r =>
    obtain ⟨values, hvalues⟩ := h
    have hfits : batch.length ≤ r.capacity := htakes r.capacity rfl
    have hshort := hvalues.short_iff htidy hfits
    have hopen : ¬r.closed = true := by simp [hvalues.isOpen]
    simp only [publish, Ring.publish_eq_resume hvalues.isOpen hbatch hfits, Ring.resume, Ring.claim,
      if_neg hopen]
    by_cases hroom : r.capacity < r.claimed + batch.length - r.gate
    · obtain ⟨consumer, hthere, hcrowds⟩ := hshort.1 hroom
      rw [if_pos hroom]
      constructor
      · intro hpublished
        cases hpublished
      · intro hfree
        exact absurd hcrowds (hfree consumer hthere)
    · rw [if_neg hroom]
      constructor
      · intro _ consumer hthere hcrowds
        exact hroom (hshort.2 ⟨consumer, hthere, hcrowds⟩)
      · intro _
        rfl
  | mailboxes boxes =>
    have hsound : boxes.Sound := h
    have hbusy : ¬boxes.busy = true := by simpa [isBusy] using hidle
    have hopen : ¬boxes.closed = true := by simp [hsound.isOpen]
    have hempty : ¬batch.isEmpty = true := by simpa using hbatch
    have hfull := Mailboxes.any_isFull_iff hsound htidy
    simp only [publish, Mailboxes.publish, if_neg hempty, if_neg hbusy, if_neg hopen]
    rw [Mailboxes.proceed_eq_published_iff boxes.prune { batch } hsound.prune.nodup]
    constructor
    · rintro hroom consumer - ⟨inbox, hinbox, hload⟩
      obtain ⟨id, hid, hload⟩ := List.any_eq_true.1 (hfull.2 ⟨consumer, inbox, hinbox, hload⟩)
      rw [hroom id hid] at hload
      cases hload
    · intro hfree id hid
      rw [Bool.eq_false_iff]
      intro hload
      obtain ⟨consumer, inbox, hinbox, hload⟩ := hfull.1 (List.any_eq_true.2 ⟨id, hid, hload⟩)
      exact hfree consumer (Option.isSome_iff_exists.2 ⟨inbox, hinbox⟩) ⟨inbox, hinbox, hload⟩

/-- Nothing is in the way of a batch but perhaps that the queue has been closed. -/
def Session.HasRoomFor (session : Session α) (batch : List α) : Prop :=
  batch ≠ [] → ∀ reason, session.Obstructed batch reason → reason = .closed

/-- Whatever else is in the way of a batch is want of room. -/
theorem Session.Obstructed.isShort_iff (h : session.Obstructed batch reason) :
    reason.IsShort ↔ reason ≠ .closed := by
  cases h with
  | closed => simp [Error.IsShort]
  | tooLong => simp [Error.IsShort]
  | crowded => simp [Error.IsShort]

theorem Session.Obstructed.hasRoomFor_iff (h : session.Obstructed batch reason)
    (hbatch : batch ≠ []) : session.HasRoomFor batch ↔ ¬reason.IsShort := by
  rw [h.isShort_iff, not_ne_iff]
  constructor
  · intro hroom
    exact hroom hbatch reason h
  · rintro rfl - other hother
    exact hother.unique h

theorem Session.hasRoomFor_nil (session : Session α) : session.HasRoomFor [] :=
  fun hne => absurd rfl hne

namespace Session.InOrder

/-- A batch that may not wait is refused for want of room exactly if there is none. -/
theorem tried_iff (h : session.InOrder) :
    ¬(Answer.published (session.queue.tried batch).1).IsShort ↔ session.HasRoomFor batch := by
  by_cases hbatch : batch = []
  · subst hbatch
    rw [tried_nil]
    exact iff_of_true id session.hasRoomFor_nil
  rcases h.tried_cases hbatch with ⟨reason, hreason, htried⟩ | ⟨hnone, after, htried⟩
  · rw [htried, hreason.hasRoomFor_iff hbatch]
    rfl
  · rw [htried]
    exact iff_of_true id fun _ reason hreason => absurd hreason (hnone reason)

/-- A queue that is open is in order, and nobody waits for it. -/
theorem sound_of_open (h : session.InOrder) (hopen : session.queue.isClosed = false) :
    session.queue.Sound ∧ session.queue.isBusy = false := by
  obtain ⟨live, spec, hcarries⟩ := h.carries
  have hqueue := hcarries.queue_eq
  cases hclosed : spec.closed with
  | false =>
    rw [hclosed] at hqueue
    rw [hqueue]
    exact ⟨hcarries.sound, hcarries.idle⟩
  | true =>
    rw [hqueue, isClosed_closeIf hcarries.sound, hclosed] at hopen
    cases hopen

/-- One that is closed takes no batch. -/
theorem publish_of_closed (h : session.InOrder) (hclosed : session.queue.isClosed = true)
    (hbatch : batch ≠ []) : (session.queue.publish batch).1 = .rejected ⟨.closed, batch⟩ := by
  obtain ⟨live, spec, hcarries⟩ := h.carries
  have hqueue := hcarries.queue_eq
  rw [hqueue, isClosed_closeIf hcarries.sound] at hclosed
  have hshut : session.queue = live.close := by
    rw [hqueue, hclosed]
    rfl
  rw [hshut, publish_close hcarries.idle, if_neg hbatch]

/-- A batch that may wait does so if some consumer leaves no room for it. Whatever else is in its
way, it is refused for. -/
theorem publish_cases (h : session.InOrder) (hbatch : batch ≠ []) :
    (∃ reason, session.Obstructed batch reason ∧ (session.queue.publish batch).1.ended?
      = if reason = .full then none else some (.error ⟨reason, batch⟩)) ∨
    (∀ reason, ¬session.Obstructed batch reason) ∧
      (session.queue.publish batch).1 = .published := by
  rcases h.tried_cases hbatch with ⟨reason, hreason, -⟩ | ⟨hnone, -⟩
  · refine Or.inl ⟨reason, hreason, ?_⟩
    cases hreason with
    | closed hclosed =>
      rw [h.publish_of_closed hclosed hbatch]
      rfl
    | tooLong hopen hbound hlong =>
      obtain ⟨r, hring, hlength⟩ :=
        exists_ring_of_not_takes fun htakes => absurd hlong (Nat.not_lt.2 (htakes _ hbound))
      rw [hring] at hopen hbound ⊢
      obtain rfl := Option.some.inj hbound
      simp only [Queue.publish, Ring.publish, Ring.refusal?_of_lt hopen hlength,
        if_neg (show ¬batch.isEmpty = true by simpa using hbatch)]
      rfl
    | @crowded name consumer hopen htakes hname hcrowds =>
      obtain ⟨hsound, hidle⟩ := h.sound_of_open hopen
      have hnot := (publish_eq_published_iff hsound hidle h.attended.tidy hbatch htakes).not.2
        fun hfree => hfree consumer (h.present name consumer hname) hcrowds
      rcases hrun : session.queue.publish batch with ⟨progress, after⟩
      rw [hrun] at hnot
      cases publish_handed hsound hidle hbatch htakes hrun with
      | published => exact absurd rfl hnot
      | waiting => rfl
  · refine Or.inr ⟨hnone, ?_⟩
    have hopen : session.queue.isClosed = false := by
      rw [Bool.eq_false_iff]
      exact fun hclosed => hnone _ (.closed hclosed)
    have htakes : session.queue.Takes batch.length := by
      intro capacity hcapacity
      exact Nat.le_of_not_lt fun hlong => hnone _ (.tooLong hopen hcapacity hlong)
    obtain ⟨hsound, hidle⟩ := h.sound_of_open hopen
    rw [publish_eq_published_iff hsound hidle h.attended.tidy hbatch htakes]
    intro consumer hthere hcrowds
    obtain ⟨name, hname⟩ := (h.isConsumer_iff consumer).1 hthere
    exact hnone _ (.crowded hopen htakes hname hcrowds)

/-- A batch that may wait is taken, or met by a closed door, exactly if there is room for it. -/
theorem publish_iff (h : session.InOrder) :
    (∃ result, (session.queue.publish batch).1.ended? = some result ∧
      ¬(Answer.published result).IsShort) ↔ session.HasRoomFor batch := by
  by_cases hbatch : batch = []
  · subst hbatch
    have hnil : (session.queue.publish []).1 = .published := by cases session.queue <;> rfl
    rw [hnil]
    exact iff_of_true ⟨_, rfl, id⟩ session.hasRoomFor_nil
  rcases h.publish_cases hbatch with ⟨reason, hreason, hended⟩ | ⟨hnone, hpublished⟩
  · rw [hended, hreason.hasRoomFor_iff hbatch]
    by_cases hfull : reason = .full
    · subst hfull
      simp [Error.IsShort]
    · rw [if_neg hfull]
      simp [Answer.IsShort]
  · rw [hpublished]
    exact iff_of_true ⟨_, rfl, id⟩ fun _ reason hreason => absurd hreason (hnone reason)

end Session.InOrder

/-! ## Room for a request -/

/-- The batch that a request brings to the queue, if it brings one. -/
def Request.batch? (session : Session α) : Request α → Option (List α)
  | publish batch => some batch
  | tryPublish batch => some batch
  | commit name => (session.transactions.lookup name).map Transaction.values
  | tryCommit name => (session.transactions.lookup name).map Transaction.values
  | _ => none

/-- There is room for what is requested, unless the queue has been closed. -/
structure Session.HasRoom (session : Session α) (request : Request α) : Prop where
  batch : ∀ batch, request.batch? session = some batch → session.HasRoomFor batch
  /-- The queue can hold the batch of a transaction that is begun. -/
  reserves : ∀ name n, request = .begin name n → session.queue.isClosed = false →
    session.queue.Takes n

/-- The name that a request goes by leads to something. -/
def Request.Finds (session : Session α) : Request α → Prop
  | next name => (session.consumers.lookup name).isSome
  | add name _ => (session.transactions.lookup name).isSome
  | commit name => (session.transactions.lookup name).isSome
  | tryCommit name => (session.transactions.lookup name).isSome
  | _ => True

/-- A request is answered, and is not refused for want of room. -/
def Session.Grants (session : Session α) (request : Request α) : Prop :=
  ∃ answer after, request.serve.run session = some (answer, after) ∧ ¬answer.IsShort

theorem Session.HasRoom.of_none (hnone : request.batch? session = none)
    (hbegin : ∀ name n, request ≠ .begin name n) : session.HasRoom request where
  batch batch hbatch := by
    rw [hnone] at hbatch
    cases hbatch
  reserves name n hsame := absurd hsame (hbegin name n)

theorem Session.hasRoom_iff_of_batch (hbatch : request.batch? session = some batch)
    (hbegin : ∀ name n, request ≠ .begin name n) :
    session.HasRoom request ↔ session.HasRoomFor batch := by
  constructor
  · intro hroom
    exact hroom.batch batch hbatch
  · intro hroom
    refine ⟨fun other hother => ?_, fun name n hsame => absurd hsame (hbegin name n)⟩
    obtain rfl := Option.some.inj (hbatch.symm.trans hother)
    exact hroom

theorem grants_publish_iff (hjobs : session.jobs = []) (batch : List α) :
    session.Grants (.publish batch) ↔ ∃ result,
      (session.queue.publish batch).1.ended? = some result ∧
        ¬(Answer.published result).IsShort := by
  unfold Session.Grants
  rw [run_publish hjobs]
  constructor
  · rintro ⟨answer, after, hrun, hshort⟩
    obtain ⟨result, hended, hresult⟩ := Option.map_eq_some_iff.1 hrun
    obtain ⟨rfl, rfl⟩ := Prod.mk.inj hresult
    exact ⟨result, hended, hshort⟩
  · rintro ⟨result, hended, hshort⟩
    exact ⟨_, _, by rw [hended]; rfl, hshort⟩

theorem grants_tryPublish_iff (hjobs : session.jobs = []) (batch : List α) :
    session.Grants (.tryPublish batch) ↔
      ¬(Answer.published (session.queue.tried batch).1).IsShort := by
  unfold Session.Grants
  rw [run_tryPublish hjobs]
  constructor
  · rintro ⟨answer, after, hrun, hshort⟩
    obtain ⟨rfl, rfl⟩ := Prod.mk.inj (Option.some.inj hrun)
    exact hshort
  · intro hshort
    exact ⟨_, _, rfl, hshort⟩

/-- A transaction is begun unless the queue is closed or can never hold it. -/
theorem grants_begin_iff (session : Session α) (name : String) (n : Nat) :
    session.Grants (.begin name n) ↔
      (session.queue.isClosed = false → session.queue.Takes n) := by
  unfold Session.Grants
  rw [run_begin]
  unfold Transaction.begin
  cases session.queue.isClosed with
  | true =>
    exact iff_of_true ⟨_, _, rfl, id⟩ (by simp)
  | false =>
    unfold Takes
    cases session.queue.capacity? with
    | none => exact iff_of_true ⟨_, _, rfl, id⟩ (by simp)
    | some capacity =>
      by_cases hlong : capacity < n
      · simp [hlong, Answer.IsShort, Error.IsShort]
      · simp [hlong, Nat.le_of_not_lt hlong, Answer.IsShort]

namespace Session.InOrder

/-- **There is room for a request exactly if it is answered, and not refused for want of room.** -/
theorem hasRoom_iff (h : session.InOrder) (hfinds : request.Finds session) :
    session.HasRoom request ↔ session.Grants request := by
  -- most requests need no room
  have hfree : (∃ answer after, request.serve.run session = some (answer, after) ∧
      ¬answer.IsShort) → request.batch? session = none → (∀ name n, request ≠ .begin name n) →
      (session.HasRoom request ↔ session.Grants request) :=
    fun hgrants hnone hbegin => iff_of_true (.of_none hnone hbegin) hgrants
  cases request with
  | subscribe name => exact hfree ⟨_, _, run_subscribe session name, id⟩ rfl (by simp)
  | unsubscribe name => exact hfree ⟨_, _, run_unsubscribe session name, id⟩ rfl (by simp)
  | discard name => exact hfree ⟨_, _, run_discard session name, id⟩ rfl (by simp)
  | close => exact hfree ⟨_, _, run_close h.jobs, id⟩ rfl (by simp)
  | next name =>
    obtain ⟨consumer, hlookup⟩ := Option.isSome_iff_exists.1 hfinds
    exact hfree ⟨_, _, by rw [run_next h.jobs, hlookup]; rfl, id⟩ rfl (by simp)
  | add name value =>
    obtain ⟨tx, hlookup⟩ := Option.isSome_iff_exists.1 hfinds
    refine hfree ?_ rfl (by simp)
    rw [run_add, hlookup, Option.map_some]
    cases tx.add value <;> exact ⟨_, _, rfl, id⟩
  | begin name n =>
    rw [grants_begin_iff]
    constructor
    · intro hroom
      exact hroom.reserves name n rfl
    · intro htakes
      refine ⟨by simp [Request.batch?], fun other m hsame => ?_⟩
      obtain ⟨-, rfl⟩ := Request.begin.inj hsame
      exact htakes
  | publish batch =>
    have hroom : session.HasRoom (.publish batch) ↔ session.HasRoomFor batch :=
      hasRoom_iff_of_batch rfl (by simp)
    rw [hroom, grants_publish_iff h.jobs, h.publish_iff]
  | tryPublish batch =>
    have hroom : session.HasRoom (.tryPublish batch) ↔ session.HasRoomFor batch :=
      hasRoom_iff_of_batch rfl (by simp)
    rw [hroom, grants_tryPublish_iff h.jobs, h.tried_iff]
  | commit name =>
    obtain ⟨tx, hlookup⟩ := Option.isSome_iff_exists.1 hfinds
    have hbatch : (Request.commit name).batch? session = some tx.values := by
      simp only [Request.batch?, hlookup, Option.map_some]
    have hjobs : ({ session with transactions := session.transactions.drop name } :
      Session α).jobs = [] := h.jobs
    have hgrants := grants_publish_iff hjobs tx.values
    unfold Grants at hgrants ⊢
    rw [run_commit h.jobs, hlookup, Option.bind_some, hgrants,
      hasRoom_iff_of_batch hbatch (by simp), ← h.publish_iff]
  | tryCommit name =>
    obtain ⟨tx, hlookup⟩ := Option.isSome_iff_exists.1 hfinds
    have hbatch : (Request.tryCommit name).batch? session = some tx.values := by
      simp only [Request.batch?, hlookup, Option.map_some]
    have hjobs : ({ session with transactions := session.transactions.drop name } :
      Session α).jobs = [] := h.jobs
    have hgrants := grants_tryPublish_iff hjobs tx.values
    unfold Grants at hgrants ⊢
    rw [run_tryCommit h.jobs, hlookup, Option.bind_some, hgrants,
      hasRoom_iff_of_batch hbatch (by simp), ← h.tried_iff]

end Session.InOrder

/-- A request that is answered has found what it names. -/
theorem finds_of_serve (hjobs : session.jobs = [])
    (hrun : request.serve.run session = some (answer, after)) : request.Finds session := by
  cases request with
  | next name =>
    rw [run_next hjobs] at hrun
    obtain ⟨consumer, hlookup, -⟩ := Option.map_eq_some_iff.1 hrun
    exact Option.isSome_iff_exists.2 ⟨consumer, hlookup⟩
  | add name value =>
    rw [run_add] at hrun
    obtain ⟨tx, hlookup, -⟩ := Option.map_eq_some_iff.1 hrun
    exact Option.isSome_iff_exists.2 ⟨tx, hlookup⟩
  | commit name =>
    rw [run_commit hjobs] at hrun
    obtain ⟨tx, hlookup, -⟩ := Option.bind_eq_some_iff.1 hrun
    exact Option.isSome_iff_exists.2 ⟨tx, hlookup⟩
  | tryCommit name =>
    rw [run_tryCommit hjobs] at hrun
    obtain ⟨tx, hlookup, -⟩ := Option.bind_eq_some_iff.1 hrun
    exact Option.isSome_iff_exists.2 ⟨tx, hlookup⟩
  | _ => exact trivial

/-! ## What consumers are given -/

/-- What the consumers of a session have been given, and are to be given next, is what the
broadcast says. -/
structure Mirrors (session : Session α) (spec : Broadcast α) : Prop where
  closed : session.queue.isClosed = spec.closed
  /-- The names of the readers are those of the consumers. -/
  names : ∀ name, (spec.readers name).isSome = (session.consumers.lookup name).isSome
  /-- The values that a consumer was given are the first of those that were sent to it, and it has
  the others in front of it. -/
  row : ∀ name reader consumer, spec.readers name = some reader →
    session.consumers.lookup name = some consumer →
      reader.sent = reader.seen ++ session.queue.unread consumer
  /-- It is given the first of these next, and otherwise told that there is none. -/
  poll : ∀ name consumer, session.consumers.lookup name = some consumer →
    (session.queue.next consumer).1 =
      match session.queue.unread consumer with
      | value :: _ => .ready value
      | [] => if session.queue.isClosed then .closed else .empty

theorem Carries.mirrors (h : Carries live session spec) : Mirrors session spec where
  closed := by rw [h.queue_eq, isClosed_closeIf h.sound]
  names name := by
    have hreads := h.reads name
    generalize session.consumers.lookup name = id at hreads
    generalize spec.readers name = reader at hreads
    cases hreads <;> rfl
  row name reader consumer hreader hlookup := by
    have hreads := h.reads name
    rw [hlookup] at hreads
    obtain ⟨-, known, hknown, hsent⟩ := hreads.exists_reader
    obtain rfl := Option.some.inj (hreader.symm.trans hknown)
    rw [h.queue_eq, unread_closeIf, hsent]
  poll name consumer hlookup := by
    have hreads := h.reads name
    rw [hlookup] at hreads
    rw [h.queue_eq, unread_closeIf, isClosed_closeIf h.sound]
    rcases next_closeIf spec.closed h.sound hreads.exists_reader.1 with
      ⟨value, later, -, hunread, hshut⟩ | ⟨hnothing, hshut⟩
    · rw [hshut, hunread]
    · rw [hshut, hnothing]

/-! ## Two sessions at once -/

/-- There is room for every request of a row when its turn comes. -/
def Session.NeverShort (session : Session α) (requests : List (Request α)) : Prop :=
  ∀ front request later answers after, requests = front ++ request :: later →
    (serveAll front).run session = some (answers, after) → after.HasRoom request

theorem serveAll_cons {later : List (Request α)}
    (hfirst : request.serve.run session = some (answer, after)) :
    (serveAll (request :: later)).run session
      = ((serveAll later).run after).map fun run => (answer :: run.1, run.2) := by
  simp only [serveAll, StateT.run_bind, hfirst, Option.bind_eq_bind, Option.bind_some]
  cases (serveAll later).run after <;> rfl

theorem exists_of_serveAll_cons {later : List (Request α)}
    (hrun : (serveAll (request :: later)).run session = some (answers, last)) :
    ∃ answer rest after, answers = answer :: rest ∧
      request.serve.run session = some (answer, after) ∧
      (serveAll later).run after = some (rest, last) := by
  cases hfirst : request.serve.run session with
  | none => simp [serveAll, hfirst] at hrun
  | some outcome =>
    obtain ⟨answer, after⟩ := outcome
    rw [serveAll_cons hfirst] at hrun
    obtain ⟨⟨rest, last⟩, hlater, hend⟩ := Option.map_eq_some_iff.1 hrun
    obtain ⟨rfl, rfl⟩ := Prod.mk.inj hend
    exact ⟨answer, rest, after, rfl, rfl, hlater⟩

theorem neverShort_cons_iff {later : List (Request α)}
    (hfirst : request.serve.run session = some (answer, after)) :
    session.NeverShort (request :: later) ↔ session.HasRoom request ∧ after.NeverShort later := by
  constructor
  · intro h
    refine ⟨h [] request later [] session rfl rfl, ?_⟩
    intro front next rest answers last hsplit hrun
    refine h (request :: front) next rest (answer :: answers) last (by rw [hsplit]; rfl) ?_
    rw [serveAll_cons hfirst, hrun]
    rfl
  · rintro ⟨hroom, hlater⟩ front next rest answers last hsplit hrun
    cases front with
    | nil =>
      obtain ⟨rfl, rfl⟩ := List.cons.inj hsplit
      obtain ⟨-, rfl⟩ := Prod.mk.inj (Option.some.inj hrun)
      exact hroom
    | cons first front =>
      obtain ⟨rfl, rfl⟩ := List.cons.inj hsplit
      obtain ⟨answer', answers, after', rfl, hfirst', hrun⟩ := exists_of_serveAll_cons hrun
      obtain ⟨rfl, rfl⟩ := Prod.mk.inj (Option.some.inj (hfirst.symm.trans hfirst'))
      exact hlater front next rest answers last rfl hrun

/-- A session that has come to its end never was short of room exactly if nothing was refused for
want of room. -/
theorem neverShort_iff (h : session.InOrder)
    (hrun : (serveAll requests).run session = some (answers, last)) :
    session.NeverShort requests ↔ ∀ answer ∈ answers, ¬answer.IsShort := by
  induction requests generalizing session answers with
  | nil =>
    obtain ⟨rfl, rfl⟩ := Prod.mk.inj (Option.some.inj hrun)
    exact iff_of_true (fun front _ _ _ _ hsplit => by simp at hsplit) (by simp)
  | cons request later ih =>
    obtain ⟨answer, rest, after, rfl, hfirst, hlater⟩ := exists_of_serveAll_cons hrun
    have hgrants : session.Grants request ↔ ¬answer.IsShort := by
      constructor
      · rintro ⟨answer', after', hfirst', hshort⟩
        obtain ⟨rfl, rfl⟩ := Prod.mk.inj (Option.some.inj (hfirst.symm.trans hfirst'))
        exact hshort
      · intro hshort
        exact ⟨answer, after, hfirst, hshort⟩
    rw [neverShort_cons_iff hfirst, h.hasRoom_iff (finds_of_serve h.jobs hfirst), hgrants,
      ih (h.serve hfirst) hlater, List.forall_mem_cons]

/-- What one session finds, another that carries the same broadcast finds as well. -/
theorem Carries.finds (h : Carries live one spec) (h' : Carries live' other spec)
    (hfinds : request.Finds one) : request.Finds other := by
  have hconsumer : ∀ name,
      (one.consumers.lookup name).isSome = (other.consumers.lookup name).isSome :=
    fun name => (h.mirrors.names name).symm.trans (h'.mirrors.names name)
  have htransaction : ∀ name, one.transactions.lookup name = other.transactions.lookup name :=
    fun name => (h.transactions name).trans (h'.transactions name).symm
  cases request with
  | next name => exact (hconsumer name).symm.trans hfinds
  | add name value => exact (congrArg Option.isSome (htransaction name)).symm.trans hfinds
  | commit name => exact (congrArg Option.isSome (htransaction name)).symm.trans hfinds
  | tryCommit name => exact (congrArg Option.isSome (htransaction name)).symm.trans hfinds
  | _ => exact trivial

/-- **Where there is always room, one backend serves what another does**, with the same answers. -/
theorem serveAll_of_room (h : Carries live one spec) (h' : Carries live' other spec)
    (hone : one.InOrder) (hother : other.InOrder) (hroom : one.NeverShort requests)
    (hroom' : other.NeverShort requests)
    (hrun : (serveAll requests).run one = some (answers, last)) :
    ∃ last', (serveAll requests).run other = some (answers, last') := by
  induction requests generalizing live live' one other spec answers with
  | nil =>
    obtain ⟨rfl, rfl⟩ := Prod.mk.inj (Option.some.inj hrun)
    exact ⟨other, rfl⟩
  | cons request later ih =>
    obtain ⟨answer, rest, after, rfl, hfirst, hlater⟩ := exists_of_serveAll_cons hrun
    have hfinds := finds_of_serve hone.jobs hfirst
    have hfirstRoom := ((neverShort_cons_iff hfirst).1 hroom).1
    have hotherRoom : other.HasRoom request := hroom' [] request later [] other rfl rfl
    obtain ⟨answer', after', hfirst', hshort'⟩ :=
      (hother.hasRoom_iff (h.finds h' hfinds)).1 hotherRoom
    obtain ⟨_, _, hsame, hshort⟩ := (hone.hasRoom_iff hfinds).1 hfirstRoom
    obtain ⟨rfl, rfl⟩ := Prod.mk.inj (Option.some.inj (hfirst.symm.trans hsame))
    -- the broadcast has one answer, so both sessions are told that one
    obtain ⟨_, next, hstep, hnext⟩ := h.serve hfirst
    obtain ⟨_, next', hstep', hnext'⟩ := h'.serve hfirst'
    obtain ⟨rfl, rfl⟩ := Broadcast.step_deterministic hstep hstep' hshort hshort'
    obtain ⟨last', hend⟩ := ih hnext hnext' (hone.serve hfirst) (hother.serve hfirst')
      ((neverShort_cons_iff hfirst).1 hroom).2 ((neverShort_cons_iff hfirst').1 hroom').2 hlater
    exact ⟨last', by rw [serveAll_cons hfirst', hend]; rfl⟩

/-! ## The refinement -/

/-- **Both backends carry out one broadcast.** Whatever a program asks of a queue, of whichever
backend and size, it is told what the broadcast says: every consumer is given, in order, what was
accepted since it registered, and nothing else. A backend only has a say in when room is short, so
two queues that never refuse for want of room tell the program the same. That is so where there is
room for every request when its turn comes: then the program comes to its end with either queue. -/
theorem broadcast_refinement (fanout : Fanout) {requests : List (Request α)}
    {answers : List (Answer α)}
    (hrun : (serveAll requests).run { queue := .ofFanout fanout } = some (answers, session)) :
    (∃ spec : Broadcast α, Broadcast.Runs {} requests answers spec ∧ Mirrors session spec) ∧
      (∀ (other : Fanout) (answers' : List (Answer α)) (session' : Session α),
        (serveAll requests).run { queue := .ofFanout other } = some (answers', session') →
        (∀ answer ∈ answers, ¬answer.IsShort) → (∀ answer ∈ answers', ¬answer.IsShort) →
        answers' = answers) ∧
      ∀ other : Fanout,
        Session.NeverShort { queue := .ofFanout fanout } requests →
        Session.NeverShort { queue := .ofFanout other } requests → ∃ session' : Session α,
          (serveAll requests).run { queue := .ofFanout other } = some (answers, session') := by
  obtain ⟨live, spec, hruns, hcarries⟩ := (carries_ofFanout fanout).serveAll hrun
  refine ⟨⟨spec, hruns, hcarries.mirrors⟩, ?_, ?_⟩
  · intro other answers' session' hrun' hroom hroom'
    obtain ⟨_, _, hruns', _⟩ := (carries_ofFanout other).serveAll hrun'
    exact (Broadcast.runs_deterministic hruns' hruns hroom' hroom).1
  · intro other hroom hroom'
    exact serveAll_of_room (carries_ofFanout fanout) (carries_ofFanout other) (.start fanout)
      (.start other) hroom hroom' hrun

/-- What the consumers of a program are told. -/
def polls (answers : List (Answer α)) : List (Poll α) :=
  answers.filterMap fun
    | .polled poll => some poll
    | _ => none

/-- A consumer that comes between a batch and a transaction, a transaction that is given up, and a
queue that is closed: a ring of three slots, which turns over, and mailboxes say the same. -/
theorem broadcast_refinement_of_two_consumers :
    let requests : List (Request Nat) :=
      [.subscribe "a", .publish [1, 2], .subscribe "b", .next "a", .begin "t" 2, .add "t" 3,
        .add "t" 4, .begin "u" 1, .add "u" 9, .discard "u", .next "a", .commit "t", .next "a",
        .next "b", .close, .tryPublish [5], .next "a", .next "a"]
    ∃ (answers : List (Answer Nat)) (session session' : Session Nat) (spec : Broadcast Nat),
      (serveAll requests).run { queue := .ofFanout (.ring 3) } = some (answers, session) ∧
        (serveAll requests).run { queue := .ofFanout (.mailbox 1) } = some (answers, session') ∧
        polls answers = [.ready 1, .ready 2, .ready 3, .ready 3, .ready 4, .closed] ∧
        Broadcast.Runs {} requests answers spec ∧ Mirrors session spec := by
  intro requests
  have hring : ((serveAll requests).run { queue := .ofFanout (.ring 3) }).any (fun run =>
      polls run.1 = [.ready 1, .ready 2, .ready 3, .ready 3, .ready 4, .closed] ∧
        ∀ answer ∈ run.1, ¬answer.IsShort) = true := by decide +kernel
  have hboxes : ((serveAll requests).run { queue := .ofFanout (.mailbox 1) }).any (fun run =>
      ∀ answer ∈ run.1, ¬answer.IsShort) = true := by decide +kernel
  obtain ⟨⟨answers, session⟩, hring, hsaid⟩ := (Option.any_eq_true _ _).1 hring
  obtain ⟨⟨answers', session'⟩, hboxes, hroom'⟩ := (Option.any_eq_true _ _).1 hboxes
  obtain ⟨hpolls, hroom⟩ := of_decide_eq_true hsaid
  obtain ⟨⟨spec, hspec⟩, -, hsame⟩ := broadcast_refinement (.ring 3) hring
  obtain ⟨_, hboxes'⟩ := hsame (.mailbox 1) ((neverShort_iff (.start _) hring).2 hroom)
    ((neverShort_iff (.start _) hboxes).2 (of_decide_eq_true hroom'))
  exact ⟨answers, session, _, spec, hring, hboxes', hpolls, hspec⟩

end CommitLog.Queue
