import CommitLog.Proofs.Queue.Broadcast

/-!
# Sessions that carry a broadcast

A session with a queue is in the state of a broadcast when what every consumer has in front of it in
the queue is the part of its row that it has not seen: `Carries`. The invariant speaks of a queue
that is open and in order; a queue that has been closed is such a queue as well, with the door shut
(`closeIf`). Whatever a session does to its queue keeps it up, with one lemma for each thing that
can be done.
-/

namespace CommitLog

namespace Queue

variable {α : Type}

/-! ## A queue that may have been closed -/

/-- A queue, closed or as it is. -/
def closeIf (closed : Bool) (queue : Queue α) : Queue α := if closed then queue.close else queue

variable {live queue after : Queue α} {closed : Bool} {batch : List α} {consumer other : ConsumerId}

theorem unread_closeIf (closed : Bool) (queue : Queue α) (consumer : ConsumerId) :
    (queue.closeIf closed).unread consumer = queue.unread consumer := by
  cases closed with
  | false => rfl
  | true => exact unread_close queue consumer

theorem isClosed_closeIf (h : live.Sound) : (live.closeIf closed).isClosed = closed := by
  cases closed with
  | false => exact isClosed_of_sound h
  | true => exact isClosed_close live

theorem capacity?_closeIf (closed : Bool) (queue : Queue α) :
    (queue.closeIf closed).capacity? = queue.capacity? := by
  cases closed <;> cases queue <;> rfl

theorem subscribe_closeIf (closed : Bool) (queue : Queue α) :
    (queue.closeIf closed).subscribe = (queue.subscribe.1, queue.subscribe.2.closeIf closed) := by
  cases closed with
  | false => rfl
  | true => exact subscribe_close queue

theorem unsubscribe_closeIf (closed : Bool) (queue : Queue α) (consumer : ConsumerId) :
    (queue.closeIf closed).unsubscribe consumer = (queue.unsubscribe consumer).closeIf closed := by
  cases closed with
  | false => rfl
  | true => exact unsubscribe_close queue consumer

theorem close_closeIf (closed : Bool) (queue : Queue α) :
    (queue.closeIf closed).close = queue.closeIf true := by
  cases closed with
  | false => rfl
  | true => exact close_close queue

/-- A consumer is given what comes first, or is told why there is nothing. -/
theorem next_closeIf (closed : Bool) (h : live.Sound) (hconsumer : live.IsConsumer consumer) :
    (∃ value after, live.next consumer = (.ready value, after) ∧
        live.unread consumer = value :: after.unread consumer ∧
        (live.closeIf closed).next consumer = (.ready value, after.closeIf closed)) ∨
      live.unread consumer = [] ∧
        (live.closeIf closed).next consumer
          = (if closed then .closed else .empty, live.closeIf closed) := by
  rcases next_cases h hconsumer with ⟨value, after, hnext, hunread⟩ | ⟨hnext, hunread⟩
  · refine Or.inl ⟨value, after, hnext, hunread, ?_⟩
    cases closed with
    | false => exact hnext
    | true =>
      rcases next_close h hconsumer with ⟨value', after', hopen, hshut⟩ | ⟨hopen, -⟩
      · rw [hopen] at hnext
        obtain ⟨hvalue, rfl⟩ := Prod.mk.inj hnext
        obtain rfl := Poll.ready.inj hvalue
        exact hshut
      · rw [hopen] at hnext
        simp at hnext
  · refine Or.inr ⟨hunread, ?_⟩
    cases closed with
    | false => exact hnext
    | true =>
      rcases next_close h hconsumer with ⟨value, after, hopen, -⟩ | ⟨-, hshut⟩
      · rw [hopen] at hnext
        simp at hnext
      · exact hshut

/-- What offering a batch to a queue comes to, which may have been closed. -/
inductive Answered (closed : Bool) (live : Queue α) (batch : List α) :
    Except (Rejected α) Unit → Queue α → Prop where
  | accepted {after : Queue α} (taken : closed = false ∨ batch = []) (idle : after.isBusy = false)
      (hands : live.Hands (fun _ => batch) (fun _ => []) after) :
      Answered closed live batch (.ok ()) (after.closeIf closed)
  | rejected {reason : Error} (ne : batch ≠ [])
      (cause : if closed then reason = .closed else reason.IsShort) :
      Answered closed live batch (.error ⟨reason, batch⟩) (live.closeIf closed)

theorem answered_of_offered {result : Except (Rejected α) Unit}
    (h : live.Offered batch result after) : Answered false live batch result after := by
  cases h with
  | accepted hidle hands => exact .accepted (Or.inl rfl) hidle hands
  | refused hne hshort => exact .rejected hne hshort

/-- After closing, nothing is taken but nothing. -/
theorem answered_of_closed (h : live.Sound) (hidle : live.isBusy = false) (batch : List α) :
    Answered true live batch (if batch = [] then .ok () else .error ⟨.closed, batch⟩)
      live.close := by
  by_cases hbatch : batch = []
  · subst hbatch
    exact .accepted (Or.inr rfl) hidle ⟨h, rfl, fun _ hconsumer => hconsumer, fun _ _ => rfl⟩
  · rw [if_neg hbatch]
    exact .rejected hbatch rfl

theorem publish_answered (closed : Bool) (h : live.Sound) (hidle : live.isBusy = false)
    {progress : Progress α} {result : Except (Rejected α) Unit}
    (hrun : (live.closeIf closed).publish batch = (progress, after))
    (hended : progress.ended? = some result) : Answered closed live batch result after := by
  cases closed with
  | false => exact answered_of_offered (publish_offered h hidle hrun hended)
  | true =>
    have hshut := publish_close hidle batch
    obtain ⟨rfl, rfl⟩ := Prod.mk.inj (hrun.symm.trans hshut)
    have hanswer := answered_of_closed h hidle batch
    split at hended
    next hbatch =>
      rw [if_pos hbatch] at hanswer
      obtain rfl := Option.some.inj hended
      exact hanswer
    next hbatch =>
      rw [if_neg hbatch] at hanswer
      obtain rfl := Option.some.inj hended
      exact hanswer

theorem tried_answered (closed : Bool) (h : live.Sound) (hidle : live.isBusy = false)
    (batch : List α) :
    Answered closed live batch ((live.closeIf closed).tried batch).1
      ((live.closeIf closed).tried batch).2 := by
  cases closed with
  | false => exact answered_of_offered (tried_offered h hidle)
  | true =>
    show Answered true live batch (live.close.tried batch).1 (live.close.tried batch).2
    rw [tried_close]
    exact answered_of_closed h hidle batch

/-! ## Consumers that go -/

/-- A queue without a consumer that may have been there. -/
def without (queue : Queue α) : Option ConsumerId → Queue α
  | some consumer => queue.unsubscribe consumer
  | none => queue

theorem without_closeIf (closed : Bool) (queue : Queue α) (gone : Option ConsumerId) :
    (queue.closeIf closed).without gone = (queue.without gone).closeIf closed := by
  cases gone with
  | none => rfl
  | some consumer => exact unsubscribe_closeIf closed queue consumer

theorem sound_without (h : live.Sound) (gone : Option ConsumerId) :
    (live.without gone).Sound ∧ (live.without gone).isBusy = live.isBusy := by
  cases gone with
  | none => exact ⟨h, rfl⟩
  | some other =>
    have hne : other ≠ other + 1 := Nat.ne_of_lt (Nat.lt_succ_self other)
    obtain ⟨hsteady, -⟩ := steady_unsubscribe h hne
    exact ⟨hsteady.sound, hsteady.isBusy_eq⟩

theorem without_of_ne (h : live.Sound) {gone : Option ConsumerId} (hne : gone ≠ some consumer)
    (hconsumer : live.IsConsumer consumer) :
    (live.without gone).IsConsumer consumer ∧
      (live.without gone).unread consumer = live.unread consumer := by
  cases gone with
  | none => exact ⟨hconsumer, rfl⟩
  | some other =>
    obtain ⟨hsteady, hunread⟩ := steady_unsubscribe h fun hsame => hne (congrArg some hsame)
    exact ⟨hsteady.isConsumer hconsumer, hunread hconsumer⟩

/-! ## What a session carries -/

/-- What is known of a consumer is told by what it has in front of it. -/
inductive Reads (live : Queue α) : Option ConsumerId → Option (Reader α) → Prop where
  | absent : Reads live none none
  | present {consumer : ConsumerId} {reader : Reader α} (isConsumer : live.IsConsumer consumer)
      (sent : reader.sent = reader.seen ++ live.unread consumer) :
      Reads live (some consumer) (some reader)

namespace Reads

variable {reader : Option (Reader α)}

theorem exists_reader (h : live.Reads (some consumer) reader) :
    live.IsConsumer consumer ∧ ∃ known : Reader α, reader = some known ∧
      known.sent = known.seen ++ live.unread consumer := by
  cases h with
  | present hconsumer hsent => exact ⟨hconsumer, _, rfl, hsent⟩

/-- What happens to others is no concern of a consumer. -/
theorem congr {id : Option ConsumerId} (h : live.Reads id reader)
    (hsame : ∀ consumer, id = some consumer → live.IsConsumer consumer →
      after.IsConsumer consumer ∧ after.unread consumer = live.unread consumer) :
    after.Reads id reader := by
  cases h with
  | absent => exact .absent
  | present hconsumer hsent =>
    obtain ⟨hthere, hunread⟩ := hsame _ rfl hconsumer
    exact .present hthere (by rw [hunread, hsent])

end Reads

/-- A session is in the state of a broadcast. -/
structure Carries (live : Queue α) (session : Session α) (spec : Broadcast α) : Prop where
  sound : live.Sound
  idle : live.isBusy = false
  queue_eq : session.queue = live.closeIf spec.closed
  jobs : session.jobs = []
  reads : ∀ name, live.Reads (session.consumers.lookup name) (spec.readers name)
  /-- No two names lead to one consumer. -/
  apart : ∀ name other consumer, session.consumers.lookup name = some consumer →
    session.consumers.lookup other = some consumer → name = other
  transactions : ∀ name, session.transactions.lookup name = spec.transactions name

theorem carries_ofFanout (fanout : Fanout) :
    Carries (.ofFanout fanout) { queue := .ofFanout fanout } ({} : Broadcast α) where
  sound := sound_ofFanout fanout
  idle := isBusy_ofFanout fanout
  queue_eq := rfl
  jobs := rfl
  reads _ := .absent
  apart := by simp
  transactions _ := rfl

/-- Whoever had a name loses the consumer. -/
theorem release_eq (session : Session α) (name : String) :
    session.release name
      = { session with queue := session.queue.without (session.consumers.lookup name) } := by
  unfold Session.release without
  cases session.consumers.lookup name <;> rfl

namespace Carries

variable {session : Session α} {spec rest : Broadcast α} {request : Request α} {name : String}

/-- A new consumer takes a name. -/
theorem subscribed (h : Carries live session spec) (name : String) :
    ∃ after : Queue α, Carries after
      { session with
        queue := session.queue.subscribe.2.without (session.consumers.lookup name)
        consumers := session.consumers.put name session.queue.subscribe.1 }
      (spec.setReader name (some {})) := by
  have hnew := not_isConsumer_subscribe h.sound
  have hkept : ∀ consumer, live.IsConsumer consumer →
      live.subscribe.2.IsConsumer consumer ∧
        live.subscribe.2.unread consumer = live.unread consumer := by
    intro consumer hconsumer
    obtain ⟨hsteady, hunread⟩ := steady_subscribe h.sound consumer
    exact ⟨hsteady.isConsumer hconsumer, hunread hconsumer⟩
  obtain ⟨hsteady, -⟩ := steady_subscribe h.sound live.subscribe.1
  obtain ⟨hconsumer, hunread⟩ := subscribe_new h.sound
  obtain ⟨hsound, hbusy⟩ := sound_without hsteady.sound (session.consumers.lookup name)
  have hknown : ∀ name consumer, session.consumers.lookup name = some consumer →
      live.IsConsumer consumer := by
    intro name consumer hlookup
    have hreads := h.reads name
    rw [hlookup] at hreads
    exact hreads.exists_reader.1
  have hfirst : session.queue.subscribe.1 = live.subscribe.1 := by
    rw [h.queue_eq, subscribe_closeIf]
  refine ⟨live.subscribe.2.without (session.consumers.lookup name), hsound,
    hbusy.trans (hsteady.isBusy_eq.trans h.idle), ?_, h.jobs, ?_, ?_, h.transactions⟩
  · show session.queue.subscribe.2.without _ = _
    rw [h.queue_eq, subscribe_closeIf, without_closeIf]
    rfl
  · intro other
    show Reads _ ((session.consumers.put name session.queue.subscribe.1).lookup other)
      (if other = name then some {} else spec.readers other)
    rw [Named.lookup_put]
    by_cases hsame : other = name
    · rw [if_pos hsame, if_pos hsame, hfirst]
      have hne : session.consumers.lookup name ≠ some live.subscribe.1 :=
        fun hold => hnew (hknown _ _ hold)
      obtain ⟨hthere, hnothing⟩ := without_of_ne hsteady.sound hne hconsumer
      exact .present hthere (by rw [hnothing, hunread]; rfl)
    · rw [if_neg hsame, if_neg hsame]
      refine (h.reads other).congr fun consumer hlookup hold => ?_
      have hne : session.consumers.lookup name ≠ some consumer :=
        fun hname => hsame (h.apart _ _ _ hlookup hname)
      obtain ⟨hlater, hlook⟩ := hkept consumer hold
      obtain ⟨hthere, hleft⟩ := without_of_ne hsteady.sound hne hlater
      exact ⟨hthere, hleft.trans hlook⟩
  · intro one two consumer hone htwo
    have hfresh : ∀ name, session.consumers.lookup name ≠ some live.subscribe.1 :=
      fun name hold => hnew (hknown _ _ hold)
    rw [Named.lookup_put, hfirst] at hone htwo
    split at hone
    next hsame =>
      split at htwo
      next hsame' => rw [hsame, hsame']
      next => exact absurd (htwo.trans hone.symm) (hfresh two)
    next =>
      split at htwo
      next => exact absurd (hone.trans htwo.symm) (hfresh one)
      next => exact h.apart one two consumer hone htwo

/-- A consumer is dropped. -/
theorem dropped (h : Carries live session spec) (name : String) :
    Carries (live.without (session.consumers.lookup name))
      { session with
        queue := session.queue.without (session.consumers.lookup name)
        consumers := session.consumers.drop name }
      (spec.setReader name none) := by
  obtain ⟨hsound, hbusy⟩ := sound_without h.sound (session.consumers.lookup name)
  refine ⟨hsound, hbusy.trans h.idle, ?_, h.jobs, ?_, ?_, h.transactions⟩
  · show session.queue.without _ = _
    rw [h.queue_eq, without_closeIf]
    rfl
  · intro other
    show Reads _ ((session.consumers.drop name).lookup other)
      (if other = name then none else spec.readers other)
    rw [Named.lookup_drop]
    by_cases hsame : other = name
    · rw [if_pos hsame, if_pos hsame]
      exact .absent
    · rw [if_neg hsame, if_neg hsame]
      refine (h.reads other).congr fun consumer hlookup hold => ?_
      exact without_of_ne h.sound (fun hname => hsame (h.apart _ _ _ hlookup hname)) hold
  · intro one two consumer hone htwo
    rw [Named.lookup_drop] at hone htwo
    split at hone
    next => simp at hone
    next =>
      split at htwo
      next => simp at htwo
      next => exact h.apart one two consumer hone htwo

/-- A consumer is given the first value that it has not seen. -/
theorem ready (h : Carries live session spec)
    (hlookup : session.consumers.lookup name = some consumer) {reader : Reader α} {value : α}
    (hsent : reader.sent = reader.seen ++ live.unread consumer)
    (hnext : live.next consumer = (.ready value, after))
    (hunread : live.unread consumer = value :: after.unread consumer) :
    Carries after { session with queue := after.closeIf spec.closed }
      (spec.setReader name (some { reader with seen := reader.seen ++ [value] })) := by
  have hafter : (live.next consumer).2 = after := by rw [hnext]
  have hself := steady_next h.sound consumer
  rw [hafter] at hself
  have hreads := h.reads name
  rw [hlookup] at hreads
  refine ⟨hself.sound, hself.isBusy_eq.trans h.idle, rfl, h.jobs, ?_, h.apart, h.transactions⟩
  intro other
  show Reads _ (session.consumers.lookup other) (if other = name then _ else spec.readers other)
  by_cases hsame : other = name
  · rw [if_pos hsame, hsame, hlookup]
    refine .present (hself.isConsumer hreads.exists_reader.1) ?_
    rw [hsent, hunread, List.append_assoc]
    rfl
  · rw [if_neg hsame]
    refine (h.reads other).congr fun id hid hold => ?_
    have hne : consumer ≠ id := by
      rintro rfl
      exact hsame (h.apart _ _ _ hid hlookup)
    obtain ⟨hsteady, hkept⟩ := steady_next_ne h.sound hne
    rw [hafter] at hsteady hkept
    exact ⟨hsteady.isConsumer hold, hkept hold⟩

/-- A batch that has been offered has come to all, or to none. -/
theorem answered (h : Carries live session rest) {result : Except (Rejected α) Unit}
    (hoffers : spec.Offers request batch rest) (hclosed : rest.closed = spec.closed)
    (hanswered : Answered rest.closed live batch result queue) :
    ∃ after next, spec.Step request (.published result) next ∧
      Carries after { session with queue } next := by
  cases hanswered with
  | @accepted after htaken hidle hands =>
    rw [hclosed] at htaken
    refine ⟨after, _, .accepted hoffers htaken, hands.sound, hidle, rfl, h.jobs, ?_, h.apart,
      h.transactions⟩
    intro name
    have hreads := h.reads name
    show Reads _ (session.consumers.lookup name) ((rest.readers name).map _)
    cases hlookup : session.consumers.lookup name with
    | none =>
      rw [hlookup] at hreads
      generalize rest.readers name = reader at hreads
      cases hreads
      exact .absent
    | some consumer =>
      rw [hlookup] at hreads
      obtain ⟨hconsumer, reader, hreader, hsent⟩ := hreads.exists_reader
      rw [hreader]
      refine .present (hands.isConsumer consumer hconsumer) ?_
      have hunread := hands.unread consumer hconsumer
      rw [List.append_nil] at hunread
      rw [hunread, ← List.append_assoc, ← hsent]
  | rejected hne hcause =>
    rw [hclosed] at hcause
    refine ⟨live, _, .rejected hoffers hne hcause, ?_⟩
    rw [← h.queue_eq]
    exact h

/-- A transaction takes a name, or gives it back. -/
theorem transacted (h : Carries live session spec) {things : Named (Transaction α)}
    {tx : Option (Transaction α)}
    (hthings : ∀ other, things.lookup other
      = if other = name then tx else session.transactions.lookup other) :
    Carries live { session with transactions := things } (spec.setTransaction name tx) where
  sound := h.sound
  idle := h.idle
  queue_eq := h.queue_eq
  jobs := h.jobs
  reads := h.reads
  apart := h.apart
  transactions other := by
    show things.lookup other = if other = name then tx else spec.transactions other
    rw [hthings, h.transactions]

end Carries

end Queue

end CommitLog
