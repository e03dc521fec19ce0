import CommitLog.Proofs.Queue.Refusing.Pruning

/-!
# What requests keep in order

A session that has come about by requests has a queue that carries a broadcast, and that is in order
(`Session.InOrder`): whoever has a place in it goes by a name, and nobody has more in front of it
than there is room for. Every request keeps this up, and so does any number of them. Taking away the
mailboxes of consumers that are gone keeps it up as well, and is not noticed by any later request
(`InOrder.told_swept`).
-/

namespace CommitLog.Queue

variable {α : Type} {live queue : Queue α} {batch : List α} {session after : Session α}
  {spec : Broadcast α} {request : Request α} {answer : Answer α} {consumer : ConsumerId}

theorem minds_without (h : queue.Tidy) (gone : Option ConsumerId) :
    queue.Minds (queue.without gone) ∧
      ∀ consumer, gone = some consumer → ¬(queue.without gone).IsConsumer consumer := by
  cases gone with
  | none => exact ⟨minds_self h, fun _ hgone => by cases hgone⟩
  | some other =>
    obtain ⟨hminds, hnot⟩ := minds_unsubscribe h other
    refine ⟨hminds, fun consumer hgone => ?_⟩
    obtain rfl := Option.some.inj hgone
    exact hnot

theorem isConsumer_closeIf (closed : Bool) (queue : Queue α) (consumer : ConsumerId) :
    (queue.closeIf closed).IsConsumer consumer ↔ queue.IsConsumer consumer := by
  cases closed with
  | false => exact Iff.rfl
  | true => exact isConsumer_close queue consumer

theorem Carries.present (h : Carries live session spec) : session.Present := by
  intro name consumer hlookup
  have hreads := h.reads name
  rw [hlookup] at hreads
  rw [h.queue_eq, isConsumer_closeIf]
  exact hreads.exists_reader.1

theorem isConsumer_pruned (queue : Queue α) (consumer : ConsumerId) :
    queue.pruned.IsConsumer consumer ↔ queue.IsConsumer consumer := by
  cases queue <;> exact Iff.rfl

theorem unread_pruned (queue : Queue α) (consumer : ConsumerId) :
    queue.pruned.unread consumer = queue.unread consumer := by
  cases queue <;> rfl

theorem Tidy.pruned (h : queue.Tidy) : queue.pruned.Tidy := by
  cases queue with
  | ring r => exact h
  | mailboxes boxes => exact Mailboxes.Tidy.prune h

theorem swept_swept (session : Session α) : session.swept.swept = session.swept :=
  swept_of_queue _ _ _ (pruned_without session.queue none)

theorem Carries.swept (h : Carries live session spec) :
    Carries live.pruned session.swept spec where
  sound := by
    have hsound := h.sound
    cases live with
    | ring r => exact hsound
    | mailboxes boxes => exact Mailboxes.Sound.prune hsound
  idle := by
    have hidle := h.idle
    cases live <;> exact hidle
  queue_eq := by
    show session.queue.pruned = _
    rw [h.queue_eq]
    cases spec.closed <;> cases live <;> rfl
  jobs := h.jobs
  reads name := (h.reads name).congr fun consumer _ hthere =>
    ⟨(isConsumer_pruned live consumer).2 hthere, unread_pruned live consumer⟩
  apart := h.apart
  transactions := h.transactions

/-- Whoever is there goes by a name, and the queue is tidy. -/
structure Session.Attended (session : Session α) : Prop where
  tidy : session.queue.Tidy
  named : ∀ consumer, session.queue.IsConsumer consumer →
    ∃ name, session.consumers.lookup name = some consumer

namespace Session.Attended

/-- What brings in nobody keeps everybody's name. -/
theorem minds (h : session.Attended) {things : Named (Transaction α)} {jobs : Named (Job α)}
    (hminds : session.queue.Minds queue) :
    (⟨queue, session.consumers, things, jobs⟩ : Session α).Attended where
  tidy := hminds.tidy
  named consumer hconsumer := h.named consumer (hminds.isConsumer consumer hconsumer)

/-- A new consumer goes by the name that it was given. -/
theorem subscribed (h : session.Attended) (name : String) :
    ({ session with
      queue := session.queue.subscribe.2.without (session.consumers.lookup name)
      consumers := session.consumers.put name session.queue.subscribe.1 } :
        Session α).Attended := by
  obtain ⟨hminds, hgone⟩ := minds_without h.tidy.subscribe (session.consumers.lookup name)
  refine ⟨hminds.tidy, fun consumer hconsumer => ?_⟩
  rcases isConsumer_of_subscribe (hminds.isConsumer consumer hconsumer) with hold | hnew
  · obtain ⟨other, hother⟩ := h.named consumer hold
    have hne : other ≠ name := by
      rintro rfl
      exact hgone consumer hother hconsumer
    refine ⟨other, ?_⟩
    rw [Named.lookup_put, if_neg hne]
    exact hother
  · refine ⟨name, ?_⟩
    rw [Named.lookup_put, if_pos rfl, hnew]

/-- A name that is given back takes its consumer with it. -/
theorem unsubscribed (h : session.Attended) (name : String) :
    ({ session with
      queue := session.queue.without (session.consumers.lookup name)
      consumers := session.consumers.drop name } : Session α).Attended := by
  obtain ⟨hminds, hgone⟩ := minds_without h.tidy (session.consumers.lookup name)
  refine ⟨hminds.tidy, fun consumer hconsumer => ?_⟩
  obtain ⟨other, hother⟩ := h.named consumer (hminds.isConsumer consumer hconsumer)
  have hne : other ≠ name := by
    rintro rfl
    exact hgone consumer hother hconsumer
  refine ⟨other, ?_⟩
  rw [Named.lookup_drop, if_neg hne]
  exact hother

theorem published (h : session.Attended) (hjobs : session.jobs = [])
    (hrun : (Request.publish batch).serve.run session = some (answer, after)) :
    after.Attended := by
  rw [run_publish hjobs] at hrun
  obtain ⟨result, -, hresult⟩ := Option.map_eq_some_iff.1 hrun
  obtain ⟨-, rfl⟩ := Prod.mk.inj hresult
  exact h.minds (minds_publish h.tidy batch)

theorem tried (h : session.Attended) (hjobs : session.jobs = [])
    (hrun : (Request.tryPublish batch).serve.run session = some (answer, after)) :
    after.Attended := by
  rw [run_tryPublish hjobs] at hrun
  obtain ⟨-, rfl⟩ := Prod.mk.inj (Option.some.inj hrun)
  exact h.minds (minds_tried h.tidy batch)

/-- Every request keeps what there is in order. -/
theorem serve (h : session.Attended) (hjobs : session.jobs = [])
    (hrun : request.serve.run session = some (answer, after)) : after.Attended := by
  have hself : ∀ things : Named (Transaction α),
      ({ session with transactions := things } : Session α).Attended :=
    fun _ => h.minds (minds_self h.tidy)
  cases request with
  | subscribe name =>
    rw [run_subscribe] at hrun
    obtain ⟨-, rfl⟩ := Prod.mk.inj (Option.some.inj hrun)
    exact h.subscribed name
  | unsubscribe name =>
    rw [run_unsubscribe] at hrun
    obtain ⟨-, rfl⟩ := Prod.mk.inj (Option.some.inj hrun)
    exact h.unsubscribed name
  | next name =>
    rw [run_next hjobs] at hrun
    obtain ⟨consumer, -, hanswer⟩ := Option.map_eq_some_iff.1 hrun
    obtain ⟨-, rfl⟩ := Prod.mk.inj hanswer
    exact h.minds (minds_next h.tidy consumer)
  | publish batch => exact h.published hjobs hrun
  | tryPublish batch => exact h.tried hjobs hrun
  | begin name n =>
    rw [run_begin] at hrun
    cases hbegin : Transaction.begin session.queue n with
    | ok tx =>
      rw [hbegin] at hrun
      obtain ⟨-, rfl⟩ := Prod.mk.inj (Option.some.inj hrun)
      exact hself _
    | error reason =>
      rw [hbegin] at hrun
      obtain ⟨-, rfl⟩ := Prod.mk.inj (Option.some.inj hrun)
      exact h
  | add name value =>
    rw [run_add] at hrun
    obtain ⟨tx, -, hanswer⟩ := Option.map_eq_some_iff.1 hrun
    cases hadd : tx.add value with
    | ok later =>
      rw [hadd] at hanswer
      obtain ⟨-, rfl⟩ := Prod.mk.inj hanswer
      exact hself _
    | error reason =>
      rw [hadd] at hanswer
      obtain ⟨-, rfl⟩ := Prod.mk.inj hanswer
      exact h
  | commit name =>
    rw [run_commit hjobs] at hrun
    obtain ⟨tx, -, hrun⟩ := Option.bind_eq_some_iff.1 hrun
    exact (hself (session.transactions.drop name)).published hjobs hrun
  | tryCommit name =>
    rw [run_tryCommit hjobs] at hrun
    obtain ⟨tx, -, hrun⟩ := Option.bind_eq_some_iff.1 hrun
    exact (hself (session.transactions.drop name)).tried hjobs hrun
  | discard name =>
    rw [run_discard] at hrun
    obtain ⟨-, rfl⟩ := Prod.mk.inj (Option.some.inj hrun)
    exact hself _
  | close =>
    rw [run_close hjobs] at hrun
    obtain ⟨-, rfl⟩ := Prod.mk.inj (Option.some.inj hrun)
    exact h.minds (minds_close h.tidy)

end Session.Attended

/-- A session as it comes about by requests: its queue carries a broadcast, and is in order. -/
structure Session.InOrder (session : Session α) : Prop where
  carries : ∃ live spec, Carries live session spec
  attended : session.Attended

namespace Session.InOrder

theorem start (fanout : Fanout) : ({ queue := .ofFanout fanout } : Session α).InOrder where
  carries := ⟨_, _, carries_ofFanout fanout⟩
  attended := by
    refine ⟨tidy_ofFanout fanout, fun consumer hconsumer => ?_⟩
    cases fanout <;> simp [ofFanout, IsConsumer, Ring.ofCapacity, Mailboxes.ofLimit,
      Mailboxes.inbox?] at hconsumer

theorem jobs (h : session.InOrder) : session.jobs = [] := by
  obtain ⟨live, spec, hcarries⟩ := h.carries
  exact hcarries.jobs

theorem present (h : session.InOrder) : session.Present := by
  obtain ⟨live, spec, hcarries⟩ := h.carries
  exact hcarries.present

/-- **One request.** -/
theorem serve (h : session.InOrder) (hrun : request.serve.run session = some (answer, after)) :
    after.InOrder := by
  obtain ⟨live, spec, hcarries⟩ := h.carries
  obtain ⟨live', spec', -, hcarries'⟩ := hcarries.serve hrun
  exact ⟨⟨live', spec', hcarries'⟩, h.attended.serve h.jobs hrun⟩

/-- **Any number of requests.** -/
theorem serveAll {requests : List (Request α)} (h : session.InOrder) {answers : List (Answer α)}
    (hrun : (Queue.serveAll requests).run session = some (answers, after)) : after.InOrder := by
  induction requests generalizing session answers with
  | nil =>
    obtain ⟨-, rfl⟩ := Prod.mk.inj (Option.some.inj hrun)
    exact h
  | cons request later ih =>
    simp only [Queue.serveAll, StateT.run_bind, Option.bind_eq_bind, Option.bind_eq_some_iff] at hrun
    obtain ⟨⟨answer, middle⟩, hfirst, ⟨answers, last⟩, hlater, hend⟩ := hrun
    obtain ⟨-, rfl⟩ := Prod.mk.inj (Option.some.inj hend)
    exact ih (h.serve hfirst) hlater

/-- **Any number of requests** is answered the same by sessions that differ at most in the mailboxes
of consumers that are gone. -/
theorem told_eq {requests : List (Request α)} {one other : Session α} (hone : one.InOrder)
    (hother : other.InOrder) (hsame : one.swept = other.swept) :
    ((Queue.serveAll requests).run one).map Prod.fst
      = ((Queue.serveAll requests).run other).map Prod.fst := by
  induction requests generalizing one other with
  | nil => rfl
  | cons request later ih =>
    have hfirst : (request.serve.run one).map settled = (request.serve.run other).map settled := by
      rw [← serve_swept hone.jobs hone.attended.tidy hone.present,
        ← serve_swept hother.jobs hother.attended.tidy hother.present, hsame]
    simp only [Queue.serveAll, StateT.run_bind, Option.bind_eq_bind]
    cases hran : request.serve.run one with
    | none =>
      rw [hran, Option.map_none] at hfirst
      rw [Option.map_eq_none_iff.1 hfirst.symm]
    | some outcome =>
      obtain ⟨answer, next⟩ := outcome
      rw [hran, Option.map_some] at hfirst
      obtain ⟨⟨answer', next'⟩, hran', hsettled⟩ := Option.map_eq_some_iff.1 hfirst.symm
      obtain ⟨rfl, hnext⟩ := Prod.mk.inj hsettled
      have hrest := ih (hone.serve hran) (hother.serve hran') hnext.symm
      rw [hran']
      simp only [Option.bind_some, StateT.run_pure, Option.pure_def, Option.map_bind]
      cases hlater : (Queue.serveAll later).run next with
      | none =>
        rw [hlater, Option.map_none] at hrest
        rw [Option.map_eq_none_iff.1 hrest.symm]
      | some outcome =>
        rw [hlater, Option.map_some] at hrest
        obtain ⟨outcome', hlater', hanswers⟩ := Option.map_eq_some_iff.1 hrest.symm
        rw [hlater', Option.bind_some, Option.bind_some]
        exact congrArg (fun answers => some (answer' :: answers)) hanswers.symm

/-- Nothing is out of order when the mailboxes of consumers that are gone are taken away. -/
theorem swept (h : session.InOrder) : session.swept.InOrder where
  carries := by
    obtain ⟨live, spec, hcarries⟩ := h.carries
    exact ⟨_, _, hcarries.swept⟩
  attended := by
    refine ⟨?_, fun consumer hconsumer => h.attended.named consumer ?_⟩
    · exact h.attended.tidy.pruned
    · exact (isConsumer_pruned session.queue consumer).1 hconsumer

/-- **Nobody can tell whether the mailboxes of consumers that are gone are still there.** -/
theorem told_swept (h : session.InOrder) (requests : List (Request α)) :
    ((Queue.serveAll requests).run session.swept).map Prod.fst
      = ((Queue.serveAll requests).run session).map Prod.fst :=
  told_eq h.swept h (swept_swept session)

end Session.InOrder

end CommitLog.Queue
