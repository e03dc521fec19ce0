import CommitLog.Proofs.Queue.Carrying

/-!
# Sessions that make requests

A session asks a queue for one thing after another. What each request does to the session is said
once (`run_publish` and the like). Whatever is asked, and whichever backend serves it, the broadcast
can answer the same: `Carries.serve`, and `Carries.serveAll` for a whole row of requests.
-/

namespace CommitLog.Queue

variable {α : Type}

/-! ## Requests to a queue -/

/-- The step of a session that makes a request. -/
def Request.serve : Request α → Session.Step α (Answer α)
  | subscribe name => (fun _ => .done) <$> Session.subscribe name
  | unsubscribe name => (fun _ => .done) <$> Session.unsubscribe name
  | next name => .polled <$> Session.next name
  | publish batch => .published <$> Session.publish batch
  | tryPublish batch => .published <$> Session.tryPublish batch
  | begin name n => .begun <$> Session.begin name n
  | add name value => .added <$> Session.add name value
  | commit name => .published <$> Session.commit name
  | tryCommit name => .published <$> Session.tryCommit name
  | discard name => (fun _ => .done) <$> Session.discard name
  | close => (fun _ => .done) <$> Session.close

/-- A session makes one request after another. There is no result when a name leads to nothing, or
when a publication would have to wait for room. -/
def serveAll : List (Request α) → Session.Step α (List (Answer α))
  | [] => return []
  | request :: later => do
    let answer ← request.serve
    let answers ← serveAll later
    return answer :: answers

variable {live : Queue α} {session after : Session α} {spec : Broadcast α} {request : Request α}
  {answer : Answer α} {consumer : ConsumerId} {name : String}

/-! ## What a step of a session does -/

theorem run_subscribe (session : Session α) (name : String) :
    (Request.subscribe name).serve.run session
      = some (.done,
          { session with
            queue := session.queue.subscribe.2.without (session.consumers.lookup name)
            consumers := session.consumers.put name session.queue.subscribe.1 }) := by
  simp only [Request.serve, Session.subscribe, release_eq]
  rfl

theorem run_unsubscribe (session : Session α) (name : String) :
    (Request.unsubscribe name).serve.run session
      = some (.done,
          { session with
            queue := session.queue.without (session.consumers.lookup name)
            consumers := session.consumers.drop name }) := by
  simp only [Request.serve, Session.unsubscribe, release_eq]
  rfl

/-- A name that leads to nothing ends a session. -/
theorem run_find {β : Type} (things : Named β) (name : String) (session : Session α) :
    (Session.find things name).run session
      = (things.lookup name).map fun thing => (thing, session) := by
  unfold Session.find
  cases things.lookup name <;> rfl

theorem run_onQueue {β : Type} (act : Queue α → β × Queue α) (session : Session α) :
    (Session.onQueue act).run session
      = some ((act session.queue).1, { session with queue := (act session.queue).2 }) := rfl

/-- Without publications in the background there is nothing to wait for. -/
theorem caughtUp_eq (hjobs : session.jobs = []) : session.caughtUp = session := by
  obtain ⟨queue, consumers, transactions, jobs⟩ := session
  obtain rfl : jobs = [] := hjobs
  cases queue with
  | ring r => simp [Session.caughtUp, Named.mapAll]
  | mailboxes boxes => rfl

theorem run_catchUp (hjobs : session.jobs = []) :
    Session.catchUp.run session = some ((), session) := by
  show some ((), session.caughtUp) = _
  rw [caughtUp_eq hjobs]

theorem run_awaitValues (hjobs : session.jobs = []) :
    Session.awaitValues.run session = some ((), session) := by
  show some ((), if session.queue.isClosed then session else session.caughtUp) = _
  rw [caughtUp_eq hjobs, ite_self]

theorem run_next (hjobs : session.jobs = []) (name : String) :
    (Request.next name).serve.run session
      = (session.consumers.lookup name).map fun consumer =>
          (.polled (session.queue.next consumer).1,
            { session with queue := (session.queue.next consumer).2 }) := by
  simp only [Request.serve, Session.next, StateT.run_map, StateT.run_bind, StateT.run_get,
    Option.pure_def, Option.bind_eq_bind, Option.bind_some, run_awaitValues hjobs, run_find]
  cases session.consumers.lookup name <;> rfl

theorem run_publish (hjobs : session.jobs = []) (batch : List α) :
    (Request.publish batch).serve.run session
      = (session.queue.publish batch).1.ended?.map fun result =>
          (.published result, { session with queue := (session.queue.publish batch).2 }) := by
  simp only [Request.serve, Session.publish, StateT.run_map, StateT.run_bind, run_catchUp hjobs,
    run_onQueue, Option.bind_eq_bind, Option.bind_some]
  cases (session.queue.publish batch).1.ended? <;> rfl

theorem run_keep (session : Session α) (batch : List α) :
    (Session.keep (session.queue.tryPublish batch)).run session
      = some ((session.queue.tried batch).1,
          { session with queue := (session.queue.tried batch).2 }) := by
  unfold tried
  cases session.queue.tryPublish batch <;> rfl

theorem run_tryPublish (hjobs : session.jobs = []) (batch : List α) :
    (Request.tryPublish batch).serve.run session
      = some (.published (session.queue.tried batch).1,
          { session with queue := (session.queue.tried batch).2 }) := by
  simp only [Request.serve, Session.tryPublish, StateT.run_map, StateT.run_bind, StateT.run_get,
    Option.pure_def, Option.bind_eq_bind, Option.bind_some, run_catchUp hjobs, run_keep]
  rfl

theorem run_begin (session : Session α) (name : String) (n : Nat) :
    (Request.begin name n).serve.run session
      = some (match Transaction.begin session.queue n with
        | .ok tx =>
          (.begun (.ok ()),
            { session with transactions := session.transactions.put name tx })
        | .error reason => (.begun (.error reason), session)) := by
  simp only [Request.serve, Session.begin, StateT.run_map, StateT.run_bind, StateT.run_get,
    Option.pure_def, Option.bind_eq_bind, Option.bind_some]
  cases Transaction.begin session.queue n <;> rfl

theorem run_add (session : Session α) (name : String) (value : α) :
    (Request.add name value).serve.run session
      = (session.transactions.lookup name).map fun tx =>
        match tx.add value with
        | .ok tx =>
          (.added (.ok (), tx), { session with transactions := session.transactions.put name tx })
        | .error reason => (.added (.error reason, tx), session) := by
  simp only [Request.serve, Session.add, StateT.run_map, StateT.run_bind, StateT.run_get,
    Option.pure_def, Option.bind_eq_bind, Option.bind_some, run_find]
  cases session.transactions.lookup name with
  | none => rfl
  | some tx =>
    simp only [Option.map_some, Option.bind_some]
    cases tx.add value <;> rfl

/-- A transaction is taken from its name, whatever becomes of it. -/
theorem run_takeTransaction (session : Session α) (name : String) :
    (Session.takeTransaction name).run session
      = (session.transactions.lookup name).map fun tx =>
          (tx, { session with transactions := session.transactions.drop name }) := by
  simp only [Session.takeTransaction, StateT.run_bind, StateT.run_get,
    Option.pure_def, Option.bind_eq_bind, Option.bind_some, run_find]
  cases session.transactions.lookup name <;> rfl

theorem run_commit (hjobs : session.jobs = []) (name : String) :
    (Request.commit name).serve.run session
      = (session.transactions.lookup name).bind fun tx =>
        (Request.publish tx.values).serve.run
          { session with transactions := session.transactions.drop name } := by
  simp only [Request.serve, Session.commit, Session.publish, StateT.run_map, StateT.run_bind,
    run_catchUp hjobs, run_takeTransaction, Option.bind_eq_bind, Option.bind_some]
  cases session.transactions.lookup name with
  | none => rfl
  | some tx =>
    let taken : Session α := { session with transactions := session.transactions.drop name }
    have htaken : taken.jobs = [] := hjobs
    simp only [Option.map_some, Option.bind_some]
    rw [run_catchUp htaken]
    rfl

theorem run_tryCommit (hjobs : session.jobs = []) (name : String) :
    (Request.tryCommit name).serve.run session
      = (session.transactions.lookup name).bind fun tx =>
        (Request.tryPublish tx.values).serve.run
          { session with transactions := session.transactions.drop name } := by
  simp only [Request.serve, Session.tryCommit, Session.tryPublish, StateT.run_map, StateT.run_bind,
    run_catchUp hjobs, run_takeTransaction, Option.bind_eq_bind, Option.bind_some]
  cases session.transactions.lookup name with
  | none => rfl
  | some tx =>
    let taken : Session α := { session with transactions := session.transactions.drop name }
    have htaken : taken.jobs = [] := hjobs
    simp only [Option.map_some, Option.bind_some]
    rw [run_catchUp htaken]
    rfl

theorem run_discard (session : Session α) (name : String) :
    (Request.discard name).serve.run session
      = some (.done, { session with transactions := session.transactions.drop name }) := rfl

theorem run_close (hjobs : session.jobs = []) :
    Request.close.serve.run session
      = some (.done, { session with queue := session.queue.close }) := by
  obtain ⟨queue, consumers, transactions, jobs⟩ := session
  obtain rfl : jobs = [] := hjobs
  rfl

/-! ## One request -/

/-- A transaction is begun unless the queue is closed, or too small for it. -/
theorem begin_cases (closed : Bool) (h : live.Sound) (n : Nat) :
    closed = false ∧ Transaction.begin (live.closeIf closed) n = .ok ⟨n, []⟩ ∨
      ∃ reason, Transaction.begin (live.closeIf closed) n = .error reason ∧
        if closed then reason = .closed else reason.IsShort := by
  unfold Transaction.begin
  rw [isClosed_closeIf h, capacity?_closeIf]
  cases closed with
  | true => exact Or.inr ⟨.closed, rfl, rfl⟩
  | false =>
    cases live.capacity? with
    | none => exact Or.inl ⟨rfl, rfl⟩
    | some capacity =>
      by_cases hshort : capacity < n
      · exact Or.inr ⟨.batchTooLarge n capacity, by simp [hshort], trivial⟩
      · exact Or.inl ⟨rfl, by simp [hshort]⟩

namespace Carries

variable {rest : Broadcast α} {batch : List α}

/-- A batch is published, as a request of its own or as a transaction. -/
theorem published (h : Carries live session rest) (hoffers : spec.Offers request batch rest)
    (hclosed : rest.closed = spec.closed)
    (hrun : (Request.publish batch).serve.run session = some (answer, after)) :
    ∃ live next, spec.Step request answer next ∧ Carries live after next := by
  rw [run_publish h.jobs, h.queue_eq] at hrun
  obtain ⟨result, hended, hresult⟩ := Option.map_eq_some_iff.1 hrun
  obtain ⟨rfl, rfl⟩ := Prod.mk.inj hresult
  exact h.answered hoffers hclosed (publish_answered rest.closed h.sound h.idle rfl hended)

/-- The same for a batch that may not wait. -/
theorem triedToPublish (h : Carries live session rest) (hoffers : spec.Offers request batch rest)
    (hclosed : rest.closed = spec.closed)
    (hrun : (Request.tryPublish batch).serve.run session = some (answer, after)) :
    ∃ live next, spec.Step request answer next ∧ Carries live after next := by
  rw [run_tryPublish h.jobs, h.queue_eq] at hrun
  obtain ⟨rfl, rfl⟩ := Prod.mk.inj (Option.some.inj hrun)
  exact h.answered hoffers hclosed (tried_answered rest.closed h.sound h.idle batch)

/-- A transaction leaves its name. -/
theorem taken (h : Carries live session spec) (name : String) :
    Carries live { session with transactions := session.transactions.drop name }
      (spec.setTransaction name none) :=
  h.transacted (Named.lookup_drop session.transactions name)

/-- A transaction takes a name, or that of an earlier one. -/
theorem held (h : Carries live session spec) (name : String) (tx : Transaction α) :
    Carries live { session with transactions := session.transactions.put name tx }
      (spec.setTransaction name (some tx)) :=
  h.transacted (Named.lookup_put session.transactions name tx)

/-- The door is shut. -/
theorem closed (h : Carries live session spec) :
    Carries live { session with queue := session.queue.close } { spec with closed := true } where
  sound := h.sound
  idle := h.idle
  queue_eq := by
    show session.queue.close = live.closeIf true
    rw [h.queue_eq, close_closeIf]
  jobs := h.jobs
  reads := h.reads
  apart := h.apart
  transactions := h.transactions

/-- A consumer asks for the next value. -/
theorem asked (h : Carries live session spec)
    (hrun : (Request.next name).serve.run session = some (answer, after)) :
    ∃ live next, spec.Step (.next name) answer next ∧ Carries live after next := by
  rw [run_next h.jobs] at hrun
  obtain ⟨consumer, hlookup, hanswer⟩ := Option.map_eq_some_iff.1 hrun
  obtain ⟨rfl, rfl⟩ := Prod.mk.inj hanswer
  have hreads := h.reads name
  rw [hlookup] at hreads
  obtain ⟨hconsumer, reader, hknown, hsent⟩ := hreads.exists_reader
  rw [h.queue_eq]
  rcases next_closeIf spec.closed h.sound hconsumer with
    ⟨value, later, hnext, hunread, hshut⟩ | ⟨hnothing, hshut⟩
  · rw [hshut]
    exact ⟨later, _, .served (.ready hknown (by rw [hsent, hunread])),
      h.ready hlookup hsent hnext hunread⟩
  · rw [hshut]
    refine ⟨live, spec, .served (.nothing hknown (by rw [hsent, hnothing, List.append_nil])), ?_⟩
    rw [← h.queue_eq]
    exact h

/-- **Whatever is asked of a queue, the broadcast answers the same.** -/
theorem serve (h : Carries live session spec)
    (hrun : request.serve.run session = some (answer, after)) :
    ∃ live next, spec.Step request answer next ∧ Carries live after next := by
  cases request with
  | subscribe name =>
    rw [run_subscribe] at hrun
    obtain ⟨rfl, rfl⟩ := Prod.mk.inj (Option.some.inj hrun)
    obtain ⟨later, hlater⟩ := h.subscribed name
    exact ⟨later, _, .served (.subscribed name), hlater⟩
  | unsubscribe name =>
    rw [run_unsubscribe] at hrun
    obtain ⟨rfl, rfl⟩ := Prod.mk.inj (Option.some.inj hrun)
    exact ⟨_, _, .served (.dropped name), h.dropped name⟩
  | next name => exact h.asked hrun
  | publish batch => exact h.published (.publish batch) rfl hrun
  | tryPublish batch => exact h.triedToPublish (.tryPublish batch) rfl hrun
  | begin name n =>
    rw [run_begin] at hrun
    have hcases := begin_cases spec.closed h.sound n
    rw [← h.queue_eq] at hcases
    rcases hcases with ⟨hopen, hbegin⟩ | ⟨reason, hbegin, hcause⟩
    · rw [hbegin] at hrun
      obtain ⟨rfl, rfl⟩ := Prod.mk.inj (Option.some.inj hrun)
      exact ⟨live, _, .served (.begun hopen), h.held name ⟨n, []⟩⟩
    · rw [hbegin] at hrun
      obtain ⟨rfl, rfl⟩ := Prod.mk.inj (Option.some.inj hrun)
      exact ⟨live, spec, .served (.notBegun hcause), h⟩
  | add name value =>
    rw [run_add] at hrun
    obtain ⟨tx, hlookup, hanswer⟩ := Option.map_eq_some_iff.1 hrun
    have htx : spec.transactions name = some tx := (h.transactions name).symm.trans hlookup
    unfold Transaction.add at hanswer
    by_cases hfull : tx.reserved ≤ tx.values.length
    · rw [if_pos hfull] at hanswer
      obtain ⟨rfl, rfl⟩ := Prod.mk.inj hanswer
      exact ⟨live, spec, .served (.notAdded htx hfull), h⟩
    · rw [if_neg hfull] at hanswer
      obtain ⟨rfl, rfl⟩ := Prod.mk.inj hanswer
      exact ⟨live, _, .served (.added htx (Nat.lt_of_not_le hfull)), h.held name _⟩
  | commit name =>
    rw [run_commit h.jobs] at hrun
    obtain ⟨tx, hlookup, hrun⟩ := Option.bind_eq_some_iff.1 hrun
    have htx : spec.transactions name = some tx := (h.transactions name).symm.trans hlookup
    exact (h.taken name).published (.commit htx) rfl hrun
  | tryCommit name =>
    rw [run_tryCommit h.jobs] at hrun
    obtain ⟨tx, hlookup, hrun⟩ := Option.bind_eq_some_iff.1 hrun
    have htx : spec.transactions name = some tx := (h.transactions name).symm.trans hlookup
    exact (h.taken name).triedToPublish (.tryCommit htx) rfl hrun
  | discard name =>
    rw [run_discard] at hrun
    obtain ⟨rfl, rfl⟩ := Prod.mk.inj (Option.some.inj hrun)
    exact ⟨live, _, .served (.discarded name), h.taken name⟩
  | close =>
    rw [run_close h.jobs] at hrun
    obtain ⟨rfl, rfl⟩ := Prod.mk.inj (Option.some.inj hrun)
    exact ⟨live, _, .served .closed, h.closed⟩

/-- The same for one request after another. -/
theorem serveAll {requests : List (Request α)} (h : Carries live session spec)
    {answers : List (Answer α)}
    (hrun : (serveAll requests).run session = some (answers, after)) :
    ∃ live last, spec.Runs requests answers last ∧ Carries live after last := by
  induction requests generalizing live session spec answers with
  | nil =>
    obtain ⟨rfl, rfl⟩ := Prod.mk.inj (Option.some.inj hrun)
    exact ⟨live, spec, .nil spec, h⟩
  | cons request later ih =>
    simp only [Queue.serveAll, StateT.run_bind, Option.bind_eq_bind, Option.bind_eq_some_iff] at hrun
    obtain ⟨⟨answer, middle⟩, hfirst, ⟨answers, last⟩, hlater, hend⟩ := hrun
    obtain ⟨rfl, rfl⟩ := Prod.mk.inj (Option.some.inj hend)
    obtain ⟨live, next, hstep, hnext⟩ := h.serve hfirst
    obtain ⟨live, last, hruns, hlast⟩ := ih hnext hlater
    exact ⟨live, last, .cons hstep hruns, hlast⟩

end Carries

end CommitLog.Queue
