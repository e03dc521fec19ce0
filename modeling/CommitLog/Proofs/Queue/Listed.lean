import CommitLog.Proofs.Queue.Blocking.Others
import CommitLog.Proofs.Queue.Refusing.Backends

/-!
# Who is on the list of a queue

A queue has a list of its consumers: the cursors of a ring, the connected mailboxes. Mailboxes may
list somebody who is gone, who is not counted (`consumerCount_eq_length`). Whatever is published or
read, the same consumers are there, and the same of them are on the list (`Attends`). Who subscribes
is put on the list, but for mailboxes that are closed, and disconnecting strikes everybody off the
list of mailboxes, and nobody off that of a ring.
-/

namespace CommitLog.Queue

variable {α : Type} {queue after : Queue α} {batch : List α} {consumer other : ConsumerId}

/-! ## The list of a queue -/

/-- The consumers on the list of the queue, whether they are still there or not. -/
def listed : Queue α → List ConsumerId
  | ring r => r.cursors.map Prod.fst
  | mailboxes boxes => boxes.connected

/-- Whether somebody who subscribes is put on the list. -/
def enrolls : Queue α → Bool
  | ring _ => true
  | mailboxes boxes => !boxes.closed

/-- Whether disconnecting strikes everybody off the list. -/
def disbands : Queue α → Bool
  | ring _ => false
  | mailboxes _ => true

/-- **The count is that of the consumers on the list who are still there.** -/
theorem consumerCount_eq_length {names : List ConsumerId} (h : queue.Tidy) (hnodup : names.Nodup)
    (hnames : ∀ consumer, consumer ∈ names ↔
      consumer ∈ queue.listed ∧ queue.IsConsumer consumer) :
    queue.consumerCount = names.length := by
  cases queue with
  | ring r =>
    have hperm : (r.cursors.map Prod.fst).Perm names :=
      (List.perm_ext_iff_of_nodup h.distinct hnodup).2 fun consumer =>
        ⟨fun hmem => (hnames consumer).2 ⟨hmem, isSome_lookup_iff.2 hmem⟩,
          fun hmem => ((hnames consumer).1 hmem).1⟩
    show r.cursors.length = names.length
    rw [← hperm.length_eq, List.length_map]
  | mailboxes boxes =>
    have hperm : (boxes.connected.filter fun consumer => (boxes.inbox? consumer).isSome).Perm
        names := by
      refine (List.perm_ext_iff_of_nodup (h.nodup.filter _) hnodup).2 fun consumer => ?_
      rw [List.mem_filter]
      exact (hnames consumer).symm
    show boxes.connected.countP _ = names.length
    rw [List.countP_eq_length_filter, hperm.length_eq]

/-- The same consumers are there, and the same of them are on the list. -/
structure Attends (queue after : Queue α) : Prop where
  tidy : after.Tidy
  name_eq : after.subscribe.1 = queue.subscribe.1
  isConsumer : ∀ consumer, after.IsConsumer consumer ↔ queue.IsConsumer consumer
  listed : ∀ consumer, queue.IsConsumer consumer →
    (consumer ∈ after.listed ↔ consumer ∈ queue.listed)
  disbands_eq : after.disbands = queue.disbands
  enrolls_eq : after.enrolls = queue.enrolls

theorem attends_self (h : queue.Tidy) : queue.Attends queue :=
  ⟨h, rfl, fun _ => .rfl, fun _ _ => .rfl, rfl, rfl⟩

theorem Attends.trans {middle : Queue α} (h : queue.Attends middle) (hlater : middle.Attends after) :
    queue.Attends after where
  tidy := hlater.tidy
  name_eq := hlater.name_eq.trans h.name_eq
  isConsumer consumer := (hlater.isConsumer consumer).trans (h.isConsumer consumer)
  listed consumer hconsumer :=
    (hlater.listed consumer ((h.isConsumer consumer).2 hconsumer)).trans (h.listed consumer hconsumer)
  disbands_eq := hlater.disbands_eq.trans h.disbands_eq
  enrolls_eq := hlater.enrolls_eq.trans h.enrolls_eq

/-- Nobody comes to a ring or goes while the names on its cursors stay. -/
theorem attends_ring {r r' : Ring α} (h : (ring r).Tidy)
    (hnames : r'.cursors.map Prod.fst = r.cursors.map Prod.fst)
    (hregistered : r'.registered = r.registered) : (ring r).Attends (ring r') where
  tidy := Ring.Tidy.congr h (by rw [hnames]) hregistered
  name_eq := hregistered
  isConsumer consumer := by
    show (r'.cursors.lookup consumer).isSome ↔ (r.cursors.lookup consumer).isSome
    rw [isSome_lookup_iff, isSome_lookup_iff, hnames]
  listed consumer _ := by rw [listed, listed, hnames]
  disbands_eq := rfl
  enrolls_eq := rfl

/-- Nobody comes to mailboxes or goes while those who have an inbox stay listed as they were. -/
theorem attends_mailboxes {boxes boxes' : Mailboxes α} (h : boxes'.Tidy)
    (hregistered : boxes'.registered = boxes.registered)
    (hinbox : ∀ consumer, (boxes'.inbox? consumer).isSome = (boxes.inbox? consumer).isSome)
    (hconnected : ∀ consumer, (boxes.inbox? consumer).isSome →
      (consumer ∈ boxes'.connected ↔ consumer ∈ boxes.connected))
    (hclosed : boxes'.closed = boxes.closed) : (mailboxes boxes).Attends (mailboxes boxes') where
  tidy := h
  name_eq := hregistered
  isConsumer consumer := by
    show (boxes'.inbox? consumer).isSome ↔ (boxes.inbox? consumer).isSome
    rw [hinbox]
  listed := hconnected
  disbands_eq := rfl
  enrolls_eq := by rw [enrolls, enrolls, hclosed]

/-! ## What keeps everybody where they are -/

theorem closed_push (boxes : Mailboxes α) (batch : List α) (consumer : ConsumerId) :
    (boxes.push batch consumer).closed = boxes.closed := by
  unfold Mailboxes.push
  split <;> rfl

theorem attends_push {boxes : Mailboxes α} (h : boxes.Tidy)
    (hroom : boxes.isFull consumer = false) (batch : List α) :
    (mailboxes boxes).Attends (mailboxes (boxes.push batch consumer)) :=
  attends_mailboxes (h.push hroom batch) (Mailboxes.registered_push boxes batch consumer)
    (Mailboxes.isSome_inbox?_push boxes batch consumer)
    (fun _ _ => by rw [Mailboxes.push_connected]) (closed_push boxes batch consumer)

/-- A batch that is put into several mailboxes with room. -/
theorem attends_foldl_push (batch : List α) (consumers : List ConsumerId) :
    ∀ boxes : Mailboxes α, boxes.Tidy → consumers.Nodup →
      (∀ consumer ∈ consumers, boxes.isFull consumer = false) →
      (mailboxes boxes).Attends
        (mailboxes (consumers.foldl (fun boxes consumer => boxes.push batch consumer) boxes)) := by
  induction consumers with
  | nil => intro boxes h _ _; exact attends_self h
  | cons first later ih =>
    intro boxes h hnodup hroom
    obtain ⟨hfirst, hlater⟩ := List.nodup_cons.1 hnodup
    have hstep := attends_push h (hroom first List.mem_cons_self) batch
    refine hstep.trans (ih _ hstep.tidy hlater fun consumer hconsumer => ?_)
    have hne : consumer ≠ first := by
      rintro rfl
      exact hfirst hconsumer
    rw [Mailboxes.isFull_push_ne hne]
    exact hroom consumer (List.mem_cons_of_mem _ hconsumer)

/-- Only who is gone loses a mailbox. -/
theorem attends_prune {boxes : Mailboxes α} (h : boxes.Tidy) :
    (mailboxes boxes).Attends (mailboxes boxes.prune) :=
  attends_mailboxes h.prune rfl (fun _ => rfl)
    (fun consumer hconsumer => by
      show consumer ∈ boxes.connected.filter _ ↔ _
      rw [List.mem_filter]
      exact and_iff_left hconsumer) rfl

theorem attends_swapRemove {boxes : Mailboxes α} (h : boxes.Tidy) {index : Nat}
    (hindex : index < boxes.connected.length)
    (hgone : (boxes.inbox? boxes.connected[index]).isNone = true) :
    (mailboxes boxes).Attends
      (mailboxes { boxes with connected := Mailboxes.swapRemove boxes.connected index }) := by
  have hperm := Mailboxes.perm_swapRemove hindex
  refine attends_mailboxes (h.sublist (List.nodup_cons.1 (hperm.nodup_iff.2 h.nodup)).2 ?_) rfl
    (fun _ => rfl) (fun consumer hconsumer => ?_) rfl
  · exact fun other hother => hperm.mem_iff.1 (List.mem_cons_of_mem _ hother)
  · have hne : consumer ≠ boxes.connected[index] := by
      rintro rfl
      rw [Option.isNone_iff_eq_none.1 hgone] at hconsumer
      cases hconsumer
    rw [← hperm.mem_iff, List.mem_cons, or_iff_right hne]

theorem attends_proceed (boxes : Mailboxes α) (publication : Publication α) (h : boxes.Tidy) :
    (mailboxes boxes).Attends (mailboxes (boxes.proceed publication).2) := by
  fun_induction Mailboxes.proceed boxes publication with
  | case1 boxes publication hlt consumer hgone ih =>
    have hstep := attends_swapRemove h hlt hgone
    exact hstep.trans (ih hstep.tidy)
  | case2 boxes publication hlt consumer hthere hroom ih =>
    have hfree : boxes.isFull consumer = false := by simpa using hroom
    have hstep := attends_push h hfree publication.batch
    exact hstep.trans (ih hstep.tidy)
  | case3 | case4 | case5 =>
    exact attends_mailboxes ⟨h.within, h.nodup, h.registered⟩ rfl (fun _ => rfl)
      (fun _ _ => .rfl) rfl

theorem attends_publish (h : queue.Tidy) (batch : List α) :
    queue.Attends (queue.publish batch).2 := by
  cases queue with
  | ring r =>
    obtain ⟨hcursors, hregistered⟩ := r.consumers_publish batch
    exact attends_ring h (by rw [hcursors]) hregistered
  | mailboxes boxes =>
    simp only [publish, Mailboxes.publish]
    split
    next => exact attends_self h
    next =>
      split
      next => exact attends_self h
      next =>
        split
        next => exact attends_self h
        next =>
          have hpruned := attends_prune h
          exact hpruned.trans (attends_proceed boxes.prune { batch } hpruned.tidy)

theorem attends_resume (h : queue.Tidy) (publication : Publication α) :
    queue.Attends (queue.resume publication).2 := by
  cases queue with
  | ring r =>
    simp only [resume, Ring.resume]
    split
    next hclaim =>
      obtain ⟨-, rfl⟩ := Ring.eq_of_claim hclaim
      exact attends_ring h rfl rfl
    next => exact attends_self h
    next => exact attends_self h
  | mailboxes boxes =>
    simp only [resume, Mailboxes.resume]
    split
    next => exact attends_publish h publication.batch
    next => exact attends_proceed boxes publication h

theorem attends_taken {boxes boxes' : Mailboxes α} (h : boxes.Tidy)
    (hrun : boxes.tryPublish batch = .ok boxes') :
    (mailboxes boxes).Attends (mailboxes boxes') := by
  unfold Mailboxes.tryPublish at hrun
  split at hrun
  next =>
    obtain rfl := Except.ok.inj hrun
    exact attends_self h
  next =>
    split at hrun
    next => cases hrun
    next =>
      by_cases hfull : boxes.prune.connected.any boxes.prune.isFull = true
      · rw [if_pos hfull] at hrun
        cases hrun
      · rw [if_neg hfull] at hrun
        obtain rfl := Except.ok.inj hrun
        have hpruned := attends_prune h
        refine hpruned.trans (attends_foldl_push batch _ boxes.prune hpruned.tidy
          (Mailboxes.Tidy.nodup hpruned.tidy) fun consumer hconsumer => ?_)
        exact Bool.eq_false_iff.2 fun hthis =>
          hfull (List.any_eq_true.2 ⟨consumer, hconsumer, hthis⟩)

theorem attends_tryPublish (h : queue.Tidy) (hrun : queue.tryPublish batch = .ok after) :
    queue.Attends after := by
  cases queue with
  | ring r =>
    cases hring : r.tryPublish batch with
    | error rejected => simp [tryPublish, hring] at hrun
    | ok r' =>
      obtain rfl : ring r' = after := by simpa [tryPublish, hring] using hrun
      obtain ⟨hcursors, hregistered⟩ := Ring.consumers_tryPublish hring
      exact attends_ring h (by rw [hcursors]) hregistered
  | mailboxes boxes =>
    cases hboxes : boxes.tryPublish batch with
    | error rejected => simp [tryPublish, hboxes] at hrun
    | ok boxes' =>
      obtain rfl : mailboxes boxes' = after := by simpa [tryPublish, hboxes] using hrun
      exact attends_taken h hboxes

theorem attends_tried (h : queue.Tidy) (batch : List α) :
    queue.Attends (queue.tried batch).2 := by
  unfold tried
  split
  next hrun => exact attends_tryPublish h hrun
  next => exact attends_self h

theorem attends_next (h : queue.Tidy) (consumer : ConsumerId) :
    queue.Attends (queue.next consumer).2 where
  tidy := (minds_next h consumer).tidy
  name_eq := Blocking.name_next queue consumer
  isConsumer other := Blocking.isConsumer_next queue other consumer
  listed other _ := by
    cases queue with
    | ring r =>
      show other ∈ (r.next consumer).2.cursors.map Prod.fst ↔ other ∈ r.cursors.map Prod.fst
      rcases r.next_eq consumer with hstays | hmoved
      · rw [hstays]
      · rw [hmoved, Ring.map_fst_advanceCursor]
    | mailboxes boxes =>
      show other ∈ (boxes.next consumer).2.connected ↔ _
      rw [Mailboxes.connected_next]
      rfl
  disbands_eq := by cases queue <;> rfl
  enrolls_eq := by
    cases queue with
    | ring r => rfl
    | mailboxes boxes =>
      simp only [next, enrolls, Mailboxes.next]
      split <;> rfl

/-! ## Names

Consumers are named in the order in which they subscribe, and nothing else uses up a name. -/

theorem name_subscribe (queue : Queue α) :
    queue.subscribe.2.subscribe.1 = queue.subscribe.1 + 1 := by
  cases queue <;> rfl

theorem name_unsubscribe (queue : Queue α) (consumer : ConsumerId) :
    (queue.unsubscribe consumer).subscribe.1 = queue.subscribe.1 := by
  cases queue <;> rfl

theorem name_stop (queue : Queue α) : queue.stop.subscribe.1 = queue.subscribe.1 := by
  cases queue <;> rfl

theorem name_disconnect (queue : Queue α) : queue.disconnect.subscribe.1 = queue.subscribe.1 := by
  cases queue <;> rfl

/-! ## How a queue keeps its list -/

theorem kind_subscribe (queue : Queue α) : queue.subscribe.2.disbands = queue.disbands ∧
    queue.subscribe.2.enrolls = queue.enrolls := by
  cases queue <;> exact ⟨rfl, rfl⟩

theorem kind_unsubscribe (queue : Queue α) (consumer : ConsumerId) :
    (queue.unsubscribe consumer).disbands = queue.disbands ∧
      (queue.unsubscribe consumer).enrolls = queue.enrolls := by
  cases queue <;> exact ⟨rfl, rfl⟩

theorem kind_disconnect (queue : Queue α) : queue.disconnect.disbands = queue.disbands ∧
    queue.disconnect.enrolls = queue.enrolls := by
  cases queue <;> exact ⟨rfl, rfl⟩

/-- Only mailboxes put nobody on the list any more. -/
theorem kind_stop (queue : Queue α) :
    queue.stop.disbands = queue.disbands ∧ queue.stop.enrolls = !queue.disbands := by
  cases queue <;> exact ⟨rfl, rfl⟩

theorem disbands_of_not_enrolls (h : queue.enrolls = false) : queue.disbands = true := by
  cases queue with
  | ring r => cases h
  | mailboxes boxes => rfl

/-- A queue that is closed and still puts newcomers on its list is a ring. -/
theorem not_disbands_of_isClosed (h : queue.enrolls = true) (hclosed : queue.isClosed = true) :
    queue.disbands = false := by
  cases queue with
  | ring r => rfl
  | mailboxes boxes => simp_all [enrolls, isClosed]

/-! ## What changes the list -/

theorem isConsumer_unsubscribe (queue : Queue α) (consumer other : ConsumerId) :
    (queue.unsubscribe other).IsConsumer consumer ↔
      queue.IsConsumer consumer ∧ consumer ≠ other := by
  by_cases hsame : consumer = other
  · subst hsame
    exact ⟨fun h => absurd h (not_isConsumer_unsubscribe queue consumer), fun h => absurd rfl h.2⟩
  · rw [(same_unsubscribe queue (Ne.symm hsame)).isConsumer]
    exact (and_iff_left hsame).symm

theorem listed_unsubscribe (queue : Queue α) (h : consumer ≠ other) :
    consumer ∈ (queue.unsubscribe other).listed ↔ consumer ∈ queue.listed := by
  cases queue with
  | ring r =>
    show consumer ∈ (r.cursors.filter _).map Prod.fst ↔ consumer ∈ r.cursors.map Prod.fst
    rw [List.mem_map, List.mem_map]
    refine exists_congr fun entry => ?_
    rw [List.mem_filter]
    constructor
    · rintro ⟨⟨hmem, -⟩, rfl⟩
      exact ⟨hmem, rfl⟩
    · rintro ⟨hmem, rfl⟩
      exact ⟨⟨hmem, by simpa using h⟩, rfl⟩
  | mailboxes boxes => rfl

/-- Who subscribes is there, and nobody else comes or goes. -/
theorem isConsumer_subscribe (queue : Queue α) (consumer : ConsumerId) :
    queue.subscribe.2.IsConsumer consumer ↔
      queue.IsConsumer consumer ∨ consumer = queue.subscribe.1 := by
  refine ⟨isConsumer_of_subscribe, ?_⟩
  cases queue with
  | ring r =>
    show (r.cursors.lookup consumer).isSome ∨ consumer = r.registered →
      ((r.cursors ++ [(r.registered, r.published)]).lookup consumer).isSome
    rw [isSome_lookup_iff, isSome_lookup_iff, List.map_append, List.mem_append]
    exact Or.imp_right fun hnew => List.mem_singleton.2 hnew
  | mailboxes boxes =>
    show (boxes.inbox? consumer).isSome ∨ consumer = boxes.registered →
      (boxes.subscribe.2.inbox? consumer).isSome
    rw [Mailboxes.inbox?_subscribe_eq, Option.isSome_or]
    rintro (hthere | rfl)
    · rw [hthere, Bool.true_or]
    · rw [if_pos rfl, Option.isSome_some, Bool.or_true]

theorem listed_subscribe (queue : Queue α) : queue.subscribe.2.listed
    = if queue.enrolls then queue.listed ++ [queue.subscribe.1] else queue.listed := by
  cases queue with
  | ring r => simp [subscribe, Ring.subscribe, listed, enrolls]
  | mailboxes boxes =>
    cases hclosed : boxes.closed <;>
      simp [subscribe, Mailboxes.subscribe, listed, enrolls, hclosed]

/-- Who is on the list subscribed earlier. -/
theorem Tidy.lt_of_listed (h : queue.Tidy) (hlisted : consumer ∈ queue.listed) :
    consumer < queue.subscribe.1 := by
  cases queue with
  | ring r => exact h.registered consumer hlisted
  | mailboxes boxes => exact h.registered consumer hlisted

theorem Tidy.stop (h : queue.Tidy) : queue.stop.Tidy := by
  cases queue with
  | ring r => exact ⟨h.distinct, h.registered⟩
  | mailboxes boxes => exact ⟨h.within, h.nodup, h.registered⟩

theorem Tidy.disconnect (h : queue.Tidy) : queue.disconnect.Tidy := by
  cases queue with
  | ring r => exact h
  | mailboxes boxes => exact ⟨h.within, List.nodup_nil, by simp [Mailboxes.disconnect]⟩

theorem listed_stop (queue : Queue α) : queue.stop.listed = queue.listed := by
  cases queue <;> rfl

theorem listed_disconnect (queue : Queue α) :
    queue.disconnect.listed = if queue.disbands then [] else queue.listed := by
  cases queue <;> rfl

end CommitLog.Queue
