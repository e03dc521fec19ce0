import CommitLog.Proofs.Queue.Listed

/-!
# How many consumers there are

Consumers come and go while batches are published and the queue is closed, in any order. A register
notes who has subscribed and who was dropped. Each operation changes the list of the queue in its
own way (`roll`), and the consumers who are there are on the list that comes of it
(`Kept.perform`). So both backends count those who have subscribed and were not dropped as long as
the queue has not been closed, and the ring counts them ever after. Mailboxes that are being closed
count those of them who came in time, and closed ones count nobody, whoever may still be reading
(`consumerCount_is_attendance_until_closed`).
-/

namespace CommitLog.Queue

variable {α : Type}

/-! ## Operations -/

/-- What is done to a queue. -/
inductive Operation (α : Type) where
  | subscribe
  | drop (consumer : ConsumerId)
  | next (consumer : ConsumerId)
  | publish (batch : List α)
  /-- Goes on with one of the publications that wait. -/
  | resume (index : Nat)
  | tryPublish (batch : List α)
  /-- Closing begins: no more batches are taken. -/
  | stop
  /-- Closing ends: mailboxes are disconnected. -/
  | disconnect

/-- A queue, with the publications that wait at it and a record of its consumers. -/
structure Register (α : Type) where
  queue : Queue α
  waiting : List (Publication α) := []
  subscribed : List ConsumerId := []
  dropped : List ConsumerId := []

namespace Register

/-- Nobody has come to the queue yet. -/
def start (fanout : Fanout) : Register α := { queue := .ofFanout fanout }

/-- The consumers who have subscribed and were not dropped. -/
def present (register : Register α) : List ConsumerId :=
  register.subscribed.filter fun consumer => consumer ∉ register.dropped

/-- The register when a publication has come to an end, or to a place where it waits. -/
def handed (register : Register α) (outcome : Progress α × Queue α) : Register α :=
  { register with
    queue := outcome.2
    waiting :=
      match outcome.1 with
      | .waiting rest => register.waiting ++ [rest]
      | _ => register.waiting }

/-- What an operation leads to. Only a consumer who is there reads or is dropped. While a
publication waits at a full mailbox it holds the list of mailboxes: nobody subscribes, tries to
publish or disconnects then. -/
def perform (register : Register α) : Operation α → Option (Register α)
  | .subscribe =>
    if register.queue.isBusy then none
    else some { register with
      queue := register.queue.subscribe.2
      subscribed := register.subscribed ++ [register.queue.subscribe.1] }
  | .drop consumer =>
    if consumer ∈ register.present then some { register with
      queue := register.queue.unsubscribe consumer
      dropped := register.dropped ++ [consumer] }
    else none
  | .next consumer =>
    if consumer ∈ register.present then
      some { register with queue := (register.queue.next consumer).2 }
    else none
  | .publish batch => some (register.handed (register.queue.publish batch))
  | .resume index =>
    register.waiting[index]?.map fun publication =>
      { register with waiting := register.waiting.eraseIdx index }.handed
        (register.queue.resume publication)
  | .tryPublish batch =>
    if register.queue.isBusy then none
    else some { register with queue := (register.queue.tried batch).2 }
  | .stop => some { register with queue := register.queue.stop }
  | .disconnect =>
    if register.queue.isBusy || !register.queue.isClosed then none
    else some { register with queue := register.queue.disconnect }

end Register

variable {register after : Register α} {operation : Operation α} {operations : List (Operation α)}
  {row : List ConsumerId} {consumer : ConsumerId}

/-- The list of the queue after an operation, if it was the given one before. -/
def Register.roll (register : Register α) (row : List ConsumerId) :
    Operation α → List ConsumerId
  | .subscribe => if register.queue.enrolls then row ++ [register.queue.subscribe.1] else row
  | .disconnect => if register.queue.disbands then [] else row
  | _ => row

theorem Register.mem_present_iff :
    consumer ∈ register.present ↔
      consumer ∈ register.subscribed ∧ consumer ∉ register.dropped := by
  unfold present
  rw [List.mem_filter, decide_eq_true_eq]

/-- Who is present when one more consumer has subscribed. -/
theorem Register.mem_present_subscribe {name : ConsumerId} {queue : Queue α}
    (hknown : register.dropped ⊆ register.subscribed) (hnew : name ∉ register.subscribed) :
    consumer ∈ ({ register with
        queue, subscribed := register.subscribed ++ [name] } : Register α).present ↔
      consumer ∈ register.present ∨ consumer = name := by
  rw [mem_present_iff, mem_present_iff, List.mem_append, List.mem_singleton]
  constructor
  · rintro ⟨hold | hsame, hdropped⟩
    · exact Or.inl ⟨hold, hdropped⟩
    · exact Or.inr hsame
  · rintro (⟨hold, hdropped⟩ | rfl)
    · exact ⟨Or.inl hold, hdropped⟩
    · exact ⟨Or.inr rfl, fun hdropped => hnew (hknown hdropped)⟩

/-- Who is present when a consumer has been dropped. -/
theorem Register.mem_present_drop {gone : ConsumerId} {queue : Queue α} :
    consumer ∈ ({ register with
        queue, dropped := register.dropped ++ [gone] } : Register α).present ↔
      consumer ∈ register.present ∧ consumer ≠ gone := by
  rw [mem_present_iff, mem_present_iff, List.mem_append, List.mem_singleton, not_or, and_assoc]

/-! ## What an operation comes to -/

/-- Whether an operation only publishes or reads. -/
def Operation.isQuiet : Operation α → Bool
  | .next _ | .publish _ | .resume _ | .tryPublish _ => true
  | .subscribe | .drop _ | .stop | .disconnect => false

theorem Register.roll_of_isQuiet (h : operation.isQuiet = true) :
    register.roll row operation = row := by
  cases operation with
  | subscribe | disconnect => cases h
  | _ => rfl

/-- How an operation changes the register. -/
inductive Register.Outcome (register : Register α) : Operation α → Register α → Prop where
  | subscribed :
      Outcome register .subscribe { register with
        queue := register.queue.subscribe.2
        subscribed := register.subscribed ++ [register.queue.subscribe.1] }
  | dropped {consumer : ConsumerId} (there : consumer ∈ register.present) :
      Outcome register (.drop consumer) { register with
        queue := register.queue.unsubscribe consumer
        dropped := register.dropped ++ [consumer] }
  | stopped : Outcome register .stop { register with queue := register.queue.stop }
  | disconnected (isClosed : register.queue.isClosed = true) :
      Outcome register .disconnect { register with queue := register.queue.disconnect }
  | moved {operation : Operation α} {queue : Queue α} {waiting : List (Publication α)}
      (isQuiet : operation.isQuiet = true) (attends : register.queue.Attends queue) :
      Outcome register operation { register with queue, waiting }

theorem Register.outcome_of_perform (h : register.queue.Tidy)
    (hrun : register.perform operation = some after) : register.Outcome operation after := by
  cases operation with
  | subscribe =>
    simp only [perform, Option.ite_none_left_eq_some, Option.some.injEq] at hrun
    obtain ⟨-, rfl⟩ := hrun
    exact .subscribed
  | drop consumer =>
    simp only [perform, Option.ite_none_right_eq_some, Option.some.injEq] at hrun
    obtain ⟨hthere, rfl⟩ := hrun
    exact .dropped hthere
  | next consumer =>
    simp only [perform, Option.ite_none_right_eq_some, Option.some.injEq] at hrun
    obtain ⟨-, rfl⟩ := hrun
    exact .moved rfl (attends_next h consumer)
  | publish batch =>
    obtain rfl := Option.some.inj hrun
    exact .moved rfl (attends_publish h batch)
  | resume index =>
    obtain ⟨publication, -, rfl⟩ := Option.map_eq_some_iff.1 hrun
    exact .moved rfl (attends_resume h publication)
  | tryPublish batch =>
    simp only [perform, Option.ite_none_left_eq_some, Option.some.injEq] at hrun
    obtain ⟨-, rfl⟩ := hrun
    exact .moved rfl (attends_tried h batch)
  | stop =>
    obtain rfl := Option.some.inj hrun
    exact .stopped
  | disconnect =>
    simp only [perform, Option.ite_none_left_eq_some, Option.some.injEq, Bool.or_eq_true,
      Bool.not_eq_true', not_or, Bool.not_eq_false] at hrun
    obtain ⟨⟨-, hclosed⟩, rfl⟩ := hrun
    exact .disconnected hclosed

/-! ## What an operation keeps -/

/-- The record is that of the queue: who has subscribed and was not dropped is there, and is on the
list of the queue if and only if it is on the given one. -/
structure Register.Kept (register : Register α) (row : List ConsumerId) : Prop where
  tidy : register.queue.Tidy
  earlier : ∀ consumer ∈ register.subscribed, consumer < register.queue.subscribe.1
  distinct : register.subscribed.Nodup
  once : register.dropped.Nodup
  known : register.dropped ⊆ register.subscribed
  isConsumer : ∀ consumer, register.queue.IsConsumer consumer ↔ consumer ∈ register.present
  noted : row ⊆ register.subscribed
  listed : ∀ consumer ∈ register.present, consumer ∈ register.queue.listed ↔ consumer ∈ row

namespace Register

theorem kept_start (fanout : Fanout) : (start fanout : Register α).Kept [] where
  tidy := tidy_ofFanout fanout
  earlier := by simp [start]
  distinct := List.nodup_nil
  once := List.nodup_nil
  known := List.nil_subset _
  isConsumer consumer := by
    cases fanout <;> simp [start, present, ofFanout, IsConsumer, Ring.ofCapacity,
      Mailboxes.ofLimit, Mailboxes.inbox?]
  noted := List.nil_subset _
  listed := by simp [start, present]

namespace Kept

/-- The queue has moved on, and the same consumers are there and on its list. -/
theorem moved {queue : Queue α} {waiting : List (Publication α)} (h : register.Kept row)
    (htidy : queue.Tidy) (hname : queue.subscribe.1 = register.queue.subscribe.1)
    (hconsumer : ∀ consumer, queue.IsConsumer consumer ↔ register.queue.IsConsumer consumer)
    (hlisted : ∀ consumer, register.queue.IsConsumer consumer →
      (consumer ∈ queue.listed ↔ consumer ∈ register.queue.listed)) :
    ({ register with queue, waiting } : Register α).Kept row where
  tidy := htidy
  earlier consumer hmem := by
    rw [hname]
    exact h.earlier consumer hmem
  distinct := h.distinct
  once := h.once
  known := h.known
  isConsumer consumer := (hconsumer consumer).trans (h.isConsumer consumer)
  noted := h.noted
  listed consumer hmem :=
    (hlisted consumer ((h.isConsumer consumer).2 hmem)).trans (h.listed consumer hmem)

/-- The next consumer is new to the record. -/
theorem name_not_mem (h : register.Kept row) :
    register.queue.subscribe.1 ∉ register.subscribed :=
  fun hmem => Nat.lt_irrefl _ (h.earlier _ hmem)

theorem subscribe (h : register.Kept row) :
    ({ register with
      queue := register.queue.subscribe.2
      subscribed := register.subscribed ++ [register.queue.subscribe.1] } : Register α).Kept
        (register.roll row .subscribe) where
  tidy := h.tidy.subscribe
  earlier consumer hmem := by
    show consumer < register.queue.subscribe.2.subscribe.1
    rw [name_subscribe]
    rcases List.mem_append.1 hmem with hold | hnew
    · exact Nat.lt_succ_of_lt (h.earlier consumer hold)
    · rw [List.mem_singleton.1 hnew]
      exact Nat.lt_succ_self _
  distinct := h.distinct.append (List.nodup_singleton _)
    (List.disjoint_singleton.2 h.name_not_mem)
  once := h.once
  known := List.subset_append_of_subset_left _ h.known
  isConsumer consumer := by
    show register.queue.subscribe.2.IsConsumer consumer ↔ _
    rw [isConsumer_subscribe, h.isConsumer, mem_present_subscribe h.known h.name_not_mem]
  noted := by
    have hold : row ⊆ register.subscribed ++ [register.queue.subscribe.1] :=
      List.subset_append_of_subset_left _ h.noted
    rw [roll]
    split
    next => exact List.append_subset.2 ⟨hold, List.subset_append_right _ _⟩
    next => exact hold
  listed consumer hmem := by
    rw [mem_present_subscribe h.known h.name_not_mem] at hmem
    show consumer ∈ register.queue.subscribe.2.listed ↔ _
    rw [listed_subscribe, roll]
    split
    next =>
      rw [List.mem_append, List.mem_append]
      rcases hmem with hold | hnew
      · exact or_congr_left (h.listed consumer hold)
      · simp [hnew]
    next =>
      rcases hmem with hold | rfl
      · exact h.listed consumer hold
      · exact iff_of_false (fun hlisted => Nat.lt_irrefl _ (h.tidy.lt_of_listed hlisted))
          fun hrow => h.name_not_mem (h.noted hrow)

theorem drop (h : register.Kept row) (hthere : consumer ∈ register.present) :
    ({ register with
      queue := register.queue.unsubscribe consumer
      dropped := register.dropped ++ [consumer] } : Register α).Kept row where
  tidy := (minds_unsubscribe h.tidy consumer).1.tidy
  earlier other hmem := by
    show other < (register.queue.unsubscribe consumer).subscribe.1
    rw [name_unsubscribe]
    exact h.earlier other hmem
  distinct := h.distinct
  once := h.once.append (List.nodup_singleton _)
    (List.disjoint_singleton.2 (mem_present_iff.1 hthere).2)
  known := List.append_subset.2
    ⟨h.known, List.cons_subset.2 ⟨(mem_present_iff.1 hthere).1, List.nil_subset _⟩⟩
  isConsumer other := by
    show (register.queue.unsubscribe consumer).IsConsumer other ↔ _
    rw [isConsumer_unsubscribe, h.isConsumer, mem_present_drop]
  noted := h.noted
  listed other hmem := by
    rw [mem_present_drop] at hmem
    show other ∈ (register.queue.unsubscribe consumer).listed ↔ other ∈ row
    rw [listed_unsubscribe _ hmem.2]
    exact h.listed other hmem.1

theorem stop (h : register.Kept row) :
    ({ register with queue := register.queue.stop } : Register α).Kept row :=
  h.moved h.tidy.stop (name_stop _) (fun consumer => (same_stop _ consumer).isConsumer)
    fun consumer _ => by rw [listed_stop]

theorem disconnect (h : register.Kept row) :
    ({ register with queue := register.queue.disconnect } : Register α).Kept
      (register.roll row .disconnect) where
  tidy := h.tidy.disconnect
  earlier consumer hmem := by
    show consumer < register.queue.disconnect.subscribe.1
    rw [name_disconnect]
    exact h.earlier consumer hmem
  distinct := h.distinct
  once := h.once
  known := h.known
  isConsumer consumer :=
    (same_disconnect register.queue consumer).isConsumer.trans (h.isConsumer consumer)
  noted := by
    rw [roll]
    split
    next => exact List.nil_subset _
    next => exact h.noted
  listed consumer hmem := by
    show consumer ∈ register.queue.disconnect.listed ↔ _
    rw [listed_disconnect, roll]
    split
    next => exact Iff.rfl
    next => exact h.listed consumer hmem

/-- **An operation keeps the record**, and changes the list in its own way. -/
theorem perform (h : register.Kept row) (hrun : register.perform operation = some after) :
    after.Kept (register.roll row operation) := by
  cases outcome_of_perform h.tidy hrun with
  | subscribed => exact h.subscribe
  | dropped hthere => exact h.drop hthere
  | stopped => exact h.stop
  | disconnected => exact h.disconnect
  | moved hquiet hattends =>
    rw [roll_of_isQuiet hquiet]
    exact h.moved hattends.tidy hattends.name_eq hattends.isConsumer hattends.listed

/-- Those who subscribed and were not dropped are as many as the difference. -/
theorem length_present (h : register.Kept row) :
    register.present.length + register.dropped.length = register.subscribed.length := by
  have hperm : (register.present ++ register.dropped).Perm register.subscribed := by
    refine (List.perm_ext_iff_of_nodup ?_ h.distinct).2 fun consumer => ?_
    · refine (h.distinct.filter _).append h.once fun consumer hpresent hdropped => ?_
      exact (mem_present_iff.1 hpresent).2 hdropped
    · rw [List.mem_append, mem_present_iff]
      constructor
      · rintro (⟨hmem, -⟩ | hdropped)
        · exact hmem
        · exact h.known hdropped
      · intro hmem
        by_cases hdropped : consumer ∈ register.dropped
        · exact Or.inr hdropped
        · exact Or.inl ⟨hmem, hdropped⟩
  rw [← hperm.length_eq, List.length_append]

/-- **Those are counted who are present and on the list.** -/
theorem consumerCount_eq (h : register.Kept row) :
    register.queue.consumerCount
      = (register.present.filter fun consumer => consumer ∈ row).length := by
  refine consumerCount_eq_length h.tidy ((h.distinct.filter _).filter _) fun consumer => ?_
  rw [List.mem_filter, decide_eq_true_eq, h.isConsumer, and_comm]
  exact and_congr_left fun hpresent => (h.listed consumer hpresent).symm

theorem consumerCount_eq_present (h : register.Kept register.subscribed) :
    register.queue.consumerCount = register.present.length := by
  rw [h.consumerCount_eq, List.filter_eq_self.2]
  exact fun consumer hpresent => decide_eq_true (mem_present_iff.1 hpresent).1

end Kept

/-! ## Runs -/

/-- A queue stays of its kind, and stops putting newcomers on its list only where closing begins. -/
theorem kind_perform (h : register.queue.Tidy) (hrun : register.perform operation = some after) :
    after.queue.disbands = register.queue.disbands ∧
      (after.queue.enrolls = register.queue.enrolls ∨
        operation = .stop ∧ after.queue.enrolls = !register.queue.disbands) := by
  cases outcome_of_perform h hrun with
  | subscribed => exact (kind_subscribe _).imp_right Or.inl
  | dropped => exact (kind_unsubscribe _ _).imp_right Or.inl
  | stopped => exact (kind_stop _).imp_right fun henrolls => Or.inr ⟨rfl, henrolls⟩
  | disconnected => exact (kind_disconnect _).imp_right Or.inl
  | moved _ hattends => exact ⟨hattends.disbands_eq, Or.inl hattends.enrolls_eq⟩

/-- While newcomers are put on the list, it has everybody who has subscribed. -/
theorem roll_subscribed (h : register.queue.Tidy) (henrolls : register.queue.enrolls = true)
    (hrun : register.perform operation = some after) :
    register.roll register.subscribed operation = after.subscribed := by
  cases outcome_of_perform h hrun with
  | subscribed => rw [roll, if_pos henrolls]
  | dropped | stopped => rfl
  | disconnected hclosed => rw [roll, not_disbands_of_isClosed henrolls hclosed]; rfl
  | moved hquiet => exact roll_of_isQuiet hquiet

namespace Kept

theorem exists_row (h : register.Kept row)
    (hrun : operations.foldlM Register.perform register = some after) : ∃ row, after.Kept row := by
  induction operations generalizing register row with
  | nil =>
    obtain rfl := Option.some.inj hrun
    exact ⟨row, h⟩
  | cons operation later ih =>
    obtain ⟨next, hstep, hlater⟩ := Option.bind_eq_some_iff.1 hrun
    exact ih (h.perform hstep) hlater

/-- **A run keeps everybody on the list** of a ring, and of mailboxes as long as closing has not
begun. -/
theorem run (h : register.Kept register.subscribed) (henrolls : register.queue.enrolls = true)
    (hopen : register.queue.disbands = false ∨ .stop ∉ operations)
    (hrun : operations.foldlM Register.perform register = some after) :
    after.Kept after.subscribed ∧ after.queue.disbands = register.queue.disbands := by
  induction operations generalizing register with
  | nil =>
    obtain rfl := Option.some.inj hrun
    exact ⟨h, rfl⟩
  | cons operation later ih =>
    obtain ⟨next, hstep, hlater⟩ := Option.bind_eq_some_iff.1 hrun
    have hkept := h.perform hstep
    rw [roll_subscribed h.tidy henrolls hstep] at hkept
    obtain ⟨hdisbands, henrolled⟩ := kind_perform h.tidy hstep
    have hnext : next.queue.enrolls = true := by
      rcases henrolled with hsame | ⟨rfl, hstopped⟩
      · rw [hsame, henrolls]
      · rcases hopen with hring | hnever
        · rw [hstopped, hring]
          rfl
        · exact absurd List.mem_cons_self hnever
    have hstays : next.queue.disbands = false ∨ .stop ∉ later := by
      rw [hdisbands]
      exact hopen.imp_right fun hnever hmem => hnever (List.mem_cons_of_mem _ hmem)
    exact (ih hkept hnext hstays hlater).imp_right fun hsame => hsame.trans hdisbands

/-- **A run puts nobody on the list of mailboxes that are closed**, and disconnecting strikes
everybody off. -/
theorem run_closed (h : register.Kept row) (hclosed : register.queue.enrolls = false)
    (hrun : operations.foldlM Register.perform register = some after) :
    (.disconnect ∈ operations → after.Kept []) ∧ (.disconnect ∉ operations → after.Kept row) := by
  induction operations generalizing register row with
  | nil =>
    obtain rfl := Option.some.inj hrun
    exact ⟨fun hmem => absurd hmem List.not_mem_nil, fun _ => h⟩
  | cons operation later ih =>
    obtain ⟨next, hstep, hlater⟩ := Option.bind_eq_some_iff.1 hrun
    have hdisbands := disbands_of_not_enrolls hclosed
    have hkept := h.perform hstep
    have hnext : next.queue.enrolls = false := by
      rcases (kind_perform h.tidy hstep).2 with hsame | ⟨-, hstopped⟩
      · rw [hsame, hclosed]
      · rw [hstopped, hdisbands]
        rfl
    by_cases hends : operation = .disconnect
    · subst hends
      rw [roll, if_pos hdisbands] at hkept
      obtain ⟨hagain, hnever⟩ := ih hkept hnext hlater
      exact ⟨fun _ => (Classical.em _).elim hagain hnever,
        fun hnot => absurd List.mem_cons_self hnot⟩
    · have hrow : register.roll row operation = row := by
        cases operation with
        | subscribe => rw [roll, hclosed]; rfl
        | disconnect => exact absurd rfl hends
        | _ => rfl
      rw [hrow] at hkept
      obtain ⟨hagain, hnever⟩ := ih hkept hnext hlater
      simp only [List.mem_cons, Ne.symm hends, false_or]
      exact ⟨hagain, hnever⟩

end Kept

end Register

/-! ## Attendance -/

/-- **Both backends count the consumers who have subscribed and were not dropped, as long as the
queue has not been closed, and a ring counts them ever after.** Whatever is done to a queue, those
and no others are there. Mailboxes that are being closed count those of them who had subscribed
before, and none of them once they are disconnected. -/
theorem consumerCount_is_attendance_until_closed (fanout : Fanout)
    (hrun : operations.foldlM Register.perform (.start fanout) = some register) :
    (∀ consumer, register.queue.IsConsumer consumer ↔
      consumer ∈ register.subscribed ∧ consumer ∉ register.dropped) ∧
    register.present.length + register.dropped.length = register.subscribed.length ∧
    ((∃ capacity, fanout = .ring capacity) ∨ .stop ∉ operations →
      register.queue.consumerCount = register.subscribed.length - register.dropped.length) ∧
    ∀ limit before later, fanout = .mailbox limit → operations = before ++ .stop :: later →
      .stop ∉ before →
      (.disconnect ∈ later → register.queue.consumerCount = 0) ∧
      (.disconnect ∉ later → ∃ closing : Register α,
        before.foldlM Register.perform (.start fanout) = some closing ∧
        register.queue.consumerCount
          = (register.present.filter fun consumer => consumer ∈ closing.subscribed).length) := by
  obtain ⟨row, hkept⟩ := (Register.kept_start fanout).exists_row hrun
  have henrolls : (Register.start fanout : Register α).queue.enrolls = true := by
    cases fanout <;> rfl
  refine ⟨fun consumer => (hkept.isConsumer consumer).trans Register.mem_present_iff,
    hkept.length_present, fun hopen => ?_, fun limit before later hfanout hoperations hfirst => ?_⟩
  · have hstays : (Register.start fanout : Register α).queue.disbands = false ∨
        .stop ∉ operations := by
      refine hopen.imp_left ?_
      rintro ⟨capacity, rfl⟩
      rfl
    have hall := ((Register.kept_start fanout).run henrolls hstays hrun).1
    have hlength := hall.length_present
    rw [hall.consumerCount_eq_present]
    omega
  · subst hfanout hoperations
    rw [List.foldlM_append] at hrun
    obtain ⟨closing, hbefore, hrest⟩ := Option.bind_eq_some_iff.1 hrun
    rw [List.foldlM_cons] at hrest
    obtain ⟨stopped, hstop, hlater⟩ := Option.bind_eq_some_iff.1 hrest
    obtain ⟨hall, hdisbands⟩ :=
      (Register.kept_start _).run henrolls (Or.inr hfirst) hbefore
    have hclosed : stopped.queue.enrolls = false := by
      obtain rfl := Option.some.inj hstop
      rw [(kind_stop closing.queue).2, hdisbands]
      rfl
    have hkept : stopped.Kept closing.subscribed := hall.perform hstop
    obtain ⟨hends, hlasts⟩ := hkept.run_closed hclosed hlater
    refine ⟨fun hmem => ?_, fun hmem => ⟨closing, hbefore, (hlasts hmem).consumerCount_eq⟩⟩
    rw [(hends hmem).consumerCount_eq]
    simp

/-- Two consumers of mailboxes, of whom one is dropped behind a batch that both were given. -/
theorem consumerCount_is_attendance_until_closed_of_dropped :
    ∃ register : Register Nat,
      [.subscribe, .subscribe, .tryPublish [7], .drop 0, .next 1].foldlM Register.perform
        (.start (.mailbox 1)) = some register ∧
      register.queue.consumerCount = register.subscribed.length - register.dropped.length ∧
      register.subscribed.length = 2 ∧ register.dropped.length = 1 := by
  let operations : List (Operation Nat) :=
    [.subscribe, .subscribe, .tryPublish [7], .drop 0, .next 1]
  have hrun : operations.foldlM Register.perform (.start (.mailbox 1)) = some _ := rfl
  obtain ⟨-, -, hcounts, -⟩ := consumerCount_is_attendance_until_closed (.mailbox 1) hrun
  exact ⟨_, hrun, hcounts (Or.inr (by simp [operations])), rfl, rfl⟩

/-- A consumer of mailboxes that were closed reads on, and is not counted. -/
theorem closed_mailboxes_count_nobody :
    ∃ register : Register Nat,
      [.subscribe, .stop, .disconnect].foldlM Register.perform (.start (.mailbox 1))
        = some register ∧
      register.queue.consumerCount ≠ register.subscribed.length - register.dropped.length :=
  ⟨_, rfl, by decide⟩

end CommitLog.Queue
