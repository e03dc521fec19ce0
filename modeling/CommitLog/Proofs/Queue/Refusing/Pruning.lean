import CommitLog.Proofs.Queue.Serving
import CommitLog.Proofs.Queue.Refusing.Backends

/-!
# Mailboxes of consumers that are gone

A producer takes away the mailboxes of consumers that are gone before it looks for room, and so
does whoever counts the consumers. Nobody can tell: a session is told the same, request for request,
whether these mailboxes are still there or not (`told_of_swept_eq`).
-/

namespace CommitLog.Queue.Mailboxes

variable {α : Type} {boxes after : Mailboxes α} {consumer other : ConsumerId}

/-- Mailboxes that differ at most in those of consumers that are gone. -/
theorem prune_congr (boxes : Mailboxes α) {connected : List ConsumerId}
    (h : connected.filter (fun consumer => (boxes.inbox? consumer).isSome)
      = boxes.connected.filter fun consumer => (boxes.inbox? consumer).isSome) :
    ({ boxes with connected } : Mailboxes α).prune = boxes.prune := by
  have hconnected : ({ boxes with connected } : Mailboxes α).prune
      = { boxes with connected := connected.filter fun consumer =>
          (boxes.inbox? consumer).isSome } := rfl
  rw [hconnected, h]
  rfl

/-- Taking mailboxes away twice takes away what is gone in the end. -/
theorem filter_filter_of_imp {gone : ConsumerId → Bool} {later : ConsumerId → Bool}
    (xs : List ConsumerId) (h : ∀ consumer ∈ xs, later consumer = true → gone consumer = true) :
    (xs.filter gone).filter later = xs.filter later := by
  rw [List.filter_filter]
  refine List.filter_congr fun consumer hconsumer => ?_
  cases hlater : later consumer with
  | false => rfl
  | true => rw [h consumer hconsumer hlater]; rfl

theorem prune_prune (boxes : Mailboxes α) : boxes.prune.prune = boxes.prune :=
  prune_congr boxes (filter_filter_of_imp _ fun _ _ h => h)

theorem prune_subscribe (h : boxes.Tidy) :
    boxes.prune.subscribe.2.prune = boxes.subscribe.2.prune := by
  -- the new consumer has a number of its own, so the others are as gone as before
  have hold : ∀ consumer ∈ boxes.connected,
      (boxes.subscribe.2.inbox? consumer).isSome = true → (boxes.inbox? consumer).isSome = true := by
    intro consumer hconsumer hthere
    rw [inbox?_subscribe_eq, if_neg (Nat.ne_of_lt (h.registered consumer hconsumer)),
      Option.or_none] at hthere
    exact hthere
  refine prune_congr boxes.subscribe.2 ?_
  have hconnected : boxes.subscribe.2.connected
      = if boxes.closed then boxes.connected else boxes.connected ++ [boxes.registered] := rfl
  rw [hconnected]
  show (if boxes.closed then boxes.prune.connected
    else boxes.prune.connected ++ [boxes.registered]).filter _ = _
  split
  next => exact filter_filter_of_imp _ hold
  next =>
    rw [List.filter_append, List.filter_append]
    congr 1
    exact filter_filter_of_imp _ hold

theorem prune_unsubscribe (boxes : Mailboxes α) (other : ConsumerId) :
    (boxes.prune.unsubscribe other).prune = (boxes.unsubscribe other).prune := by
  refine prune_congr (boxes.unsubscribe other) (filter_filter_of_imp _ fun consumer _ hthere => ?_)
  by_cases hsame : other = consumer
  · subst hsame
    have hgone : (boxes.unsubscribe other).inbox? other = none :=
      lookup_filter_self other boxes.inboxes
    rw [hgone] at hthere
    cases hthere
  · have hkept : (boxes.unsubscribe other).inbox? consumer = boxes.inbox? consumer :=
      lookup_filter_ne hsame
    rw [hkept] at hthere
    exact hthere

/-- A consumer that is there is told the same, and leaves the same behind. -/
theorem prune_next (hthere : (boxes.inbox? consumer).isSome) :
    (boxes.prune.next consumer).1 = (boxes.next consumer).1 ∧
      (boxes.prune.next consumer).2.prune = (boxes.next consumer).2.prune := by
  have hcontains : boxes.prune.connected.contains consumer = boxes.connected.contains consumer := by
    rw [Bool.eq_iff_iff, List.contains_iff_mem, List.contains_iff_mem]
    exact ⟨fun hmem => (List.mem_filter.1 hmem).1,
      fun hmem => List.mem_filter.2 ⟨hmem, hthere⟩⟩
  have hinbox : boxes.prune.inbox? consumer = boxes.inbox? consumer := rfl
  unfold next
  rw [hinbox]
  cases hnext : (boxes.inbox? consumer).bind Inbox.next? with
  | none => exact ⟨by simp only [hcontains], prune_prune boxes⟩
  | some found =>
    obtain ⟨value, rest⟩ := found
    obtain ⟨inbox, hold, -⟩ := Option.bind_eq_some_iff.1 hnext
    refine ⟨rfl, prune_congr { boxes with inboxes := putInbox consumer rest boxes.inboxes }
      (filter_filter_of_imp _ fun other _ hother => ?_)⟩
    by_cases hsame : consumer = other
    · rw [← hsame, hold]
      rfl
    · have hkept : (putInbox consumer rest boxes.inboxes).lookup other
          = boxes.inboxes.lookup other := lookup_putInbox_ne hsame
      have hsome : ((putInbox consumer rest boxes.inboxes).lookup other).isSome = true := hother
      rw [hkept] at hsome
      exact hsome

/-- Whoever publishes takes the mailboxes away first. -/
theorem prune_publish (boxes : Mailboxes α) (batch : List α) :
    (boxes.prune.publish batch).1 = (boxes.publish batch).1 ∧
      (boxes.prune.publish batch).2.prune = (boxes.publish batch).2.prune := by
  have hbusy : boxes.prune.busy = boxes.busy := rfl
  have hclosed : boxes.prune.closed = boxes.closed := rfl
  unfold publish
  rw [hbusy, hclosed, prune_prune]
  split
  next => exact ⟨rfl, prune_prune boxes⟩
  next =>
    split
    next => exact ⟨rfl, prune_prune boxes⟩
    next =>
      split
      next => exact ⟨rfl, prune_prune boxes⟩
      next => exact ⟨rfl, rfl⟩

/-- The same for a batch that may not wait. -/
theorem prune_tryPublish (boxes : Mailboxes α) (batch : List α) :
    (boxes.prune.tryPublish batch).map prune = (boxes.tryPublish batch).map prune := by
  have hclosed : boxes.prune.closed = boxes.closed := rfl
  unfold tryPublish
  rw [hclosed, prune_prune]
  split
  next => exact congrArg Except.ok (prune_prune boxes)
  next => rfl

theorem consumerCount_prune (boxes : Mailboxes α) :
    boxes.prune.consumerCount = boxes.consumerCount := by
  show (boxes.connected.filter fun consumer => (boxes.inbox? consumer).isSome).countP
    (fun consumer => (boxes.inbox? consumer).isSome) = _
  rw [List.countP_filter]
  exact List.countP_congr fun consumer _ => by simp

end CommitLog.Queue.Mailboxes

namespace CommitLog.Queue

variable {α : Type} {queue : Queue α} {consumer : ConsumerId}

/-- The queue without the mailboxes of consumers that are gone. -/
def pruned : Queue α → Queue α
  | ring r => ring r
  | mailboxes boxes => mailboxes boxes.prune

/-- Two outcomes of a request to a queue, equal but for the mailboxes of consumers that are gone. -/
def SameButGone {β : Type} (one other : β × Queue α) : Prop :=
  one.1 = other.1 ∧ one.2.pruned = other.2.pruned

theorem pruned_subscribe (h : queue.Tidy) : SameButGone queue.pruned.subscribe queue.subscribe := by
  cases queue with
  | ring r => exact ⟨rfl, rfl⟩
  | mailboxes boxes => exact ⟨rfl, congrArg mailboxes (Mailboxes.prune_subscribe h)⟩

theorem pruned_without (queue : Queue α) (gone : Option ConsumerId) :
    (queue.pruned.without gone).pruned = (queue.without gone).pruned := by
  cases queue with
  | ring r => rfl
  | mailboxes boxes =>
    cases gone with
    | none => exact congrArg mailboxes (Mailboxes.prune_prune boxes)
    | some other => exact congrArg mailboxes (Mailboxes.prune_unsubscribe boxes other)

theorem pruned_next (h : queue.IsConsumer consumer) :
    SameButGone (queue.pruned.next consumer) (queue.next consumer) := by
  cases queue with
  | ring r => exact ⟨rfl, rfl⟩
  | mailboxes boxes =>
    have hthere : (boxes.inbox? consumer).isSome := h
    obtain ⟨hpoll, hafter⟩ := Mailboxes.prune_next hthere
    exact ⟨hpoll, congrArg mailboxes hafter⟩

theorem pruned_publish (queue : Queue α) (batch : List α) :
    SameButGone (queue.pruned.publish batch) (queue.publish batch) := by
  cases queue with
  | ring r => exact ⟨rfl, rfl⟩
  | mailboxes boxes =>
    obtain ⟨hprogress, hafter⟩ := boxes.prune_publish batch
    exact ⟨hprogress, congrArg mailboxes hafter⟩

theorem pruned_tried (queue : Queue α) (batch : List α) :
    SameButGone (queue.pruned.tried batch) (queue.tried batch) := by
  cases queue with
  | ring r => exact ⟨rfl, rfl⟩
  | mailboxes boxes =>
    have hsame := boxes.prune_tryPublish batch
    simp only [SameButGone, tried, pruned, tryPublish]
    cases hone : boxes.prune.tryPublish batch with
    | error rejected =>
      cases hother : boxes.tryPublish batch with
      | error rejected' =>
        rw [hone, hother] at hsame
        obtain rfl := Except.error.inj hsame
        exact ⟨rfl, congrArg mailboxes (Mailboxes.prune_prune boxes)⟩
      | ok after => rw [hone, hother] at hsame; cases hsame
    | ok after =>
      cases hother : boxes.tryPublish batch with
      | error rejected => rw [hone, hother] at hsame; cases hsame
      | ok after' =>
        rw [hone, hother] at hsame
        exact ⟨rfl, congrArg mailboxes (Except.ok.inj hsame)⟩

theorem pruned_close (queue : Queue α) : queue.pruned.close = queue.close := by
  cases queue <;> rfl

theorem begin_pruned (queue : Queue α) (n : Nat) :
    Transaction.begin queue.pruned n = Transaction.begin queue n := by
  cases queue <;> rfl

theorem consumerCount_pruned (queue : Queue α) :
    queue.pruned.consumerCount = queue.consumerCount := by
  cases queue with
  | ring r => rfl
  | mailboxes boxes => exact boxes.consumerCount_prune

/-! ## Sessions -/

/-- A session at whose queue the mailboxes of consumers that are gone have been taken away. -/
def Session.swept (session : Session α) : Session α :=
  { session with queue := session.queue.pruned }

/-- An answer, and the session behind it when it has been swept. -/
def settled (outcome : Answer α × Session α) : Answer α × Session α :=
  (outcome.1, outcome.2.swept)

variable {session other : Session α} {request : Request α} {name : String}

theorem swept_of_queue {queue after : Queue α} (consumers : Named ConsumerId)
    (transactions : Named (Transaction α)) (jobs : Named (Job α))
    (h : queue.pruned = after.pruned) :
    (⟨queue, consumers, transactions, jobs⟩ : Session α).swept
      = (⟨after, consumers, transactions, jobs⟩ : Session α).swept := by
  unfold Session.swept
  rw [h]

/-- Whoever goes by a name is there. -/
def Session.Present (session : Session α) : Prop :=
  ∀ name consumer, session.consumers.lookup name = some consumer →
    session.queue.IsConsumer consumer

theorem serve_swept_publish (hjobs : session.jobs = []) (batch : List α) :
    ((Request.publish batch).serve.run session.swept).map settled
      = ((Request.publish batch).serve.run session).map settled := by
  have hswept : session.swept.jobs = [] := hjobs
  obtain ⟨hprogress, hafter⟩ := pruned_publish session.queue batch
  rw [run_publish hjobs, run_publish hswept, Option.map_map, Option.map_map]
  show ((session.queue.pruned.publish batch).1.ended?.map _) = _
  rw [hprogress]
  congr 1
  funext result
  exact congrArg (Prod.mk _) (swept_of_queue _ _ _ hafter)

theorem serve_swept_tryPublish (hjobs : session.jobs = []) (batch : List α) :
    ((Request.tryPublish batch).serve.run session.swept).map settled
      = ((Request.tryPublish batch).serve.run session).map settled := by
  have hswept : session.swept.jobs = [] := hjobs
  obtain ⟨hresult, hafter⟩ := pruned_tried session.queue batch
  rw [run_tryPublish hjobs, run_tryPublish hswept]
  exact congrArg some (Prod.ext (congrArg Answer.published hresult)
    (swept_of_queue _ _ _ hafter))

/-- **A request is answered the same**, whether the mailboxes of consumers that are gone have been
taken away or not. -/
theorem serve_swept (hjobs : session.jobs = []) (htidy : session.queue.Tidy)
    (hpresent : session.Present) (request : Request α) :
    (request.serve.run session.swept).map settled
      = (request.serve.run session).map settled := by
  have hswept : session.swept.jobs = [] := hjobs
  cases request with
  | subscribe name =>
    obtain ⟨hname, hafter⟩ := pruned_subscribe htidy
    rw [run_subscribe, run_subscribe]
    have hqueue : (session.swept.queue.subscribe.2.without
        (session.consumers.lookup name)).pruned
        = (session.queue.subscribe.2.without (session.consumers.lookup name)).pruned := by
      rw [← pruned_without, ← pruned_without session.queue.subscribe.2]
      show ((session.queue.pruned.subscribe.2.pruned).without _).pruned = _
      rw [hafter]
    have hconsumers : session.swept.queue.subscribe.1 = session.queue.subscribe.1 := hname
    rw [hconsumers]
    exact congrArg some (Prod.ext rfl (swept_of_queue _ _ _ hqueue))
  | unsubscribe name =>
    rw [run_unsubscribe, run_unsubscribe]
    exact congrArg some (Prod.ext rfl (swept_of_queue _ _ _ (pruned_without _ _)))
  | next name =>
    rw [run_next hjobs, run_next hswept]
    show (Option.map _ (session.consumers.lookup name)).map settled = _
    cases hlookup : session.consumers.lookup name with
    | none => rfl
    | some consumer =>
      obtain ⟨hpoll, hafter⟩ := pruned_next (hpresent name consumer hlookup)
      exact congrArg some (Prod.ext (congrArg Answer.polled hpoll) (swept_of_queue _ _ _ hafter))
  | publish batch => exact serve_swept_publish hjobs batch
  | tryPublish batch => exact serve_swept_tryPublish hjobs batch
  | begin name n =>
    rw [run_begin, run_begin]
    have hbegin : Transaction.begin session.swept.queue n = Transaction.begin session.queue n :=
      begin_pruned session.queue n
    rw [hbegin]
    have htwice : session.queue.pruned.pruned = session.queue.pruned := pruned_without _ none
    cases Transaction.begin session.queue n with
    | ok tx => exact congrArg some (Prod.ext rfl (swept_of_queue _ _ _ htwice))
    | error reason => exact congrArg some (Prod.ext rfl (swept_of_queue _ _ _ htwice))
  | add name value =>
    have htwice : session.queue.pruned.pruned = session.queue.pruned := pruned_without _ none
    rw [run_add, run_add]
    show (Option.map _ (session.transactions.lookup name)).map settled = _
    cases session.transactions.lookup name with
    | none => rfl
    | some tx =>
      simp only [Option.map_some]
      cases tx.add value with
      | ok tx => exact congrArg some (Prod.ext rfl (swept_of_queue _ _ _ htwice))
      | error reason => exact congrArg some (Prod.ext rfl (swept_of_queue _ _ _ htwice))
  | commit name =>
    rw [run_commit hjobs, run_commit hswept]
    show (Option.bind (session.transactions.lookup name) _).map settled = _
    cases session.transactions.lookup name with
    | none => rfl
    | some tx =>
      let taken : Session α := { session with transactions := session.transactions.drop name }
      have htaken : taken.jobs = [] := hjobs
      exact serve_swept_publish htaken tx.values
  | tryCommit name =>
    rw [run_tryCommit hjobs, run_tryCommit hswept]
    show (Option.bind (session.transactions.lookup name) _).map settled = _
    cases session.transactions.lookup name with
    | none => rfl
    | some tx =>
      let taken : Session α := { session with transactions := session.transactions.drop name }
      have htaken : taken.jobs = [] := hjobs
      exact serve_swept_tryPublish htaken tx.values
  | discard name =>
    have htwice : session.queue.pruned.pruned = session.queue.pruned := pruned_without _ none
    rw [run_discard, run_discard]
    exact congrArg some (Prod.ext rfl (swept_of_queue _ _ _ htwice))
  | close =>
    rw [run_close hjobs, run_close hswept]
    exact congrArg some (Prod.ext rfl
      (swept_of_queue _ _ _ (congrArg pruned (pruned_close session.queue))))

end CommitLog.Queue
