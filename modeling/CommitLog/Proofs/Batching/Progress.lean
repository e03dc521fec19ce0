import CommitLog.Proofs.Batching.Machine
import Mathlib.Order.Filter.AtTopBot.Basic
import Mathlib.Order.Filter.Finite
import Mathlib.Order.OrderIsoNat

/-!
# Writers are answered when consumers go on reading

A batch may wait for room in the queue for as long as some consumer does not read. Where the worker
goes on again and again, and every consumer polls again and again (`Fair`), all units are answered
and everything that was published is read: `Fair.settles`.

Two quantities carry the proof. What the worker has still to do (`Hall.stepsLeft`) never grows, and
shrinks with each step of the worker but one that finds no room. While it stays the same, no commit
is made, so what is on its way to a consumer can only shrink, and does when the consumer is given
something. In the end neither changes; then everything published has been read, and a batch that
still waited would find room.
-/

namespace CommitLog.Batching

open CommitLog.Handover (Worker)
open CommitLog.Queue (ConsumerId)
open CommitLog.Topic (Backlog Folder commitsOf pieces)

variable {config : Config} {folder : Folder} {hall next : Hall} {runs : Nat → Hall}
  {topic after : Topic} {moved : Worker} {results : List (Except LogError RawOutcome)}
  {consumer : ConsumerId}

/-! ## What the worker has still to do -/

/-- How many steps of the worker are left of a unit at most, if no batch has to wait. -/
def stepsOf : Worker → Nat
  | .idle => 0
  | .appending attempts results => 3 * attempts.length + 2 * (commitsOf results).length + 2
  | .publishing _ batches => 2 * batches.length + 1
  | .held _ backlog => 2 * backlog.later.length + 2

/-- How many are left of all units. -/
def Hall.stepsLeft (hall : Hall) : Nat :=
  stepsOf hall.worker + hall.units.foldr (fun unit steps => 3 * unit.length + 3 + steps) 0

/-- A batch that waits has found no room again. -/
inductive Waits (hall : Hall) : Hall → Prop where
  | again {results : List (Except LogError RawOutcome)} {backlog : Backlog}
      {rest : Queue.Publication RawCommit} {queue : Queue RawCommit}
      (worker_eq : hall.worker = .held results backlog)
      (resumed : hall.topic.queue.resume backlog.publication = (.waiting rest, queue)) :
      Waits hall
        { hall with
          worker := .held results ⟨rest, backlog.later⟩
          topic := { hall.topic with queue } }

theorem length_pieces_le {α : Type} (size : Nat) (items : List α) :
    (pieces size items).length ≤ items.length := by
  fun_induction pieces size items with
  | case1 => exact Nat.le_refl _
  | case2 item rest ih =>
    rw [List.length_drop] at ih
    rw [List.length_cons, List.length_cons]
    omega

theorem stepsOf_afterBatch {rest : List (List RawCommit)} {progress : Queue.Progress RawCommit}
    {last : Queue RawCommit}
    (h : Worker.afterBatch results rest topic (progress, last) = (moved, after)) :
    stepsOf moved ≤ 2 * rest.length + 2 ∧
      (stepsOf moved < 2 * rest.length + 2 ∨ ∃ publication, progress = .waiting publication) := by
  cases progress with
  | published =>
    obtain ⟨rfl, rfl⟩ := h
    exact ⟨Nat.le_succ _, Or.inl (Nat.lt_succ_self _)⟩
  | rejected rejected =>
    obtain ⟨rfl, rfl⟩ := h
    have hless : stepsOf (.publishing results []) < 2 * rest.length + 2 := by
      simp only [stepsOf, List.length_nil]
      omega
    exact ⟨Nat.le_of_lt hless, Or.inl hless⟩
  | waiting publication =>
    obtain ⟨rfl, rfl⟩ := h
    exact ⟨Nat.le_refl _, Or.inr ⟨publication, rfl⟩⟩

/-- **The worker comes closer to its end**, unless it is there or a batch has to wait on. -/
theorem stepsLeft_worked (h : Worked hall next) :
    next.stepsLeft < hall.stepsLeft ∨ hall.Done ∧ next = hall ∨ Waits hall next := by
  cases h with
  | done h => exact Or.inr (Or.inl ⟨h, rfl⟩)
  | @sent unit later idle units_eq =>
    refine Or.inl ?_
    simp only [Hall.stepsLeft, idle, units_eq, stepsOf, List.foldr_cons,
      show commitsOf [] = [] from rfl, List.length_nil]
    omega
  | answered worker_eq =>
    refine Or.inl ?_
    simp only [Hall.stepsLeft, worker_eq, stepsOf, List.length_nil]
    omega
  | advanced busy unanswered moves =>
    have hadvanced := advance_cases moves
    generalize hworker : hall.worker = worker at hadvanced
    cases hadvanced with
    | idle => exact absurd hworker busy
    | through => exact absurd hworker (unanswered _)
    | @appended attempt attempts results result _ _ append_eq =>
      have hone : (commitsOf (results ++ [result])).length ≤ (commitsOf results).length + 1 := by
        rw [Handover.commitsOf_append, Handover.commitsOf_singleton, List.length_append]
        cases result.toOption.bind Outcome.commit? <;> simp
      refine Or.inl ?_
      simp only [Hall.stepsLeft, hworker, stepsOf, List.length_cons]
      omega
    | @cut results =>
      have hpieces := length_pieces_le
        (hall.topic.queue.capacity?.getD (commitsOf results).length) (commitsOf results)
      refine Or.inl ?_
      simp only [Hall.stepsLeft, hworker, stepsOf, List.length_nil]
      omega
    | handed publish_eq given =>
      have hle := (stepsOf_afterBatch given).1
      refine Or.inl ?_
      simp only [Hall.stepsLeft, hworker, stepsOf, List.length_cons] at hle ⊢
      omega
    | resumed resume_eq given =>
      rcases (stepsOf_afterBatch given).2 with hless | ⟨publication, rfl⟩
      · refine Or.inl ?_
        simp only [Hall.stepsLeft, hworker, stepsOf] at hless ⊢
        omega
      · obtain ⟨rfl, rfl⟩ := given
        exact Or.inr (Or.inr (.again hworker resume_eq))

theorem stepsLeft_of_waits (h : Waits hall next) : next.stepsLeft = hall.stepsLeft := by
  cases h with
  | again worker_eq resumed => simp only [Hall.stepsLeft, worker_eq, stepsOf]

/-- Nothing that happens gives the worker more to do. -/
theorem stepsLeft_step (h : Step folder hall next) : next.stepsLeft ≤ hall.stepsLeft := by
  cases h with
  | worked =>
    rcases stepsLeft_worked (work_cases hall) with hless | ⟨-, hsame⟩ | hwaits
    · exact Nat.le_of_lt hless
    · rw [hsame]
    · exact Nat.le_of_eq (stepsLeft_of_waits hwaits)
  | polled consumer => exact Nat.le_refl _
  | elsewhere keeps => exact Nat.le_refl _

/-! ## While the worker comes no further -/

/-- Something has happened by which the worker has come no closer to its end. -/
structure Lingers (folder : Folder) (hall next : Hall) : Prop where
  step : Step folder hall next
  le : hall.stepsLeft ≤ next.stepsLeft

theorem commits_of_lingers (h : Lingers folder hall next) :
    next.run.commits = hall.run.commits := by
  obtain ⟨hstep, hle⟩ := h
  cases hstep with
  | worked =>
    rcases stepsLeft_worked (work_cases hall) with hless | ⟨-, hsame⟩ | hwaits
    · omega
    · rw [hsame]
    · generalize hall.work = next at hwaits
      cases hwaits with
      | again worker_eq resumed =>
        show _ ++ commitsOf _ = _ ++ Worker.commits hall.worker
        rw [worker_eq]
        rfl
  | polled consumer => rfl
  | elsewhere keeps => rfl

theorem heard_poll (hall : Hall) (other consumer : ConsumerId) :
    hall.heard consumer <+: (hall.poll other).heard consumer := by
  by_cases hsame : other = consumer
  · subst hsame
    cases hpoll : (hall.topic.queue.next other).1 with
    | ready commit =>
      simp only [Hall.poll, hpoll, Hall.hear, Function.update_self]
      exact List.prefix_append _ _
    | empty => simp only [Hall.poll, hpoll, Hall.hear, List.prefix_refl]
    | closed => simp only [Hall.poll, hpoll, Hall.hear, List.prefix_refl]
  · rw [heard_poll_ne hall hsame]

theorem heard_step (h : Step folder hall next) (consumer : ConsumerId) :
    hall.heard consumer <+: next.heard consumer := by
  cases h with
  | worked => rw [heard_of_worked (work_cases hall)]
  | polled other => exact heard_poll hall other consumer
  | elsewhere keeps => exact List.prefix_refl _

/-- What is on its way to a consumer is what it is given, and what is on its way to it then. -/
theorem line_of_lingers (horderly : Orderly config folder hall) (h : Lingers folder hall next)
    (hconsumer : hall.topic.queue.IsConsumer consumer) :
    ∃ given, next.heard consumer = hall.heard consumer ++ given ∧
      hall.run.line consumer = given ++ next.run.line consumer := by
  obtain ⟨given, hgiven⟩ := heard_step h.step consumer
  obtain ⟨more, hcommits, hline⟩ := (hears_step horderly h.step hconsumer).received
  rw [commits_of_lingers h] at hcommits
  have hnone : more = [] := List.self_eq_append_right.1 hcommits
  rw [hnone, List.append_nil, ← hgiven, List.append_assoc] at hline
  exact ⟨given, hgiven.symm, (List.append_cancel_left hline).symm⟩

/-- A consumer that polls and has not seen everything is given something. -/
theorem heard_poll_self (h : Orderly config folder hall)
    (hconsumer : hall.topic.queue.IsConsumer consumer)
    (hunread : hall.topic.queue.unread consumer ≠ []) :
    (hall.poll consumer).heard consumer ≠ hall.heard consumer := by
  rcases Queue.next_cases h.inOrder.queue hconsumer with ⟨value, after, hnext, -⟩ | ⟨-, hnone⟩
  · have hnext' : hall.topic.queue.next consumer = (.ready value, after) := hnext
    simp only [Hall.poll, hnext', Hall.hear, Function.update_self]
    simp
  · exact absurd hnone hunread

/-- What a consumer has not seen does not go away before it is given something. -/
theorem unread_of_lingers (horderly : Orderly config folder hall) (h : Lingers folder hall next)
    (hconsumer : hall.topic.queue.IsConsumer consumer)
    (hunread : hall.topic.queue.unread consumer ≠ [])
    (hheard : next.heard consumer = hall.heard consumer) :
    next.topic.queue.unread consumer ≠ [] := by
  obtain ⟨hstep, hle⟩ := h
  cases hstep with
  | worked =>
    rcases stepsLeft_worked (work_cases hall) with hless | ⟨-, hsame⟩ | hwaits
    · omega
    · rw [hsame]
      exact hunread
    · generalize hall.work = next at hwaits
      cases hwaits with
      | again worker_eq resumed =>
        have hready := horderly.inOrder.ready
        rw [show hall.run.worker = _ from worker_eq] at hready
        have hkept := Queue.prefix_unread_of_waiting hready.1 resumed consumer
        intro hnone
        rw [show _ = _ from hnone] at hkept
        exact hunread (List.prefix_nil.1 hkept)
  | polled other =>
    by_cases hsame : other = consumer
    · subst hsame
      exact absurd hheard (heard_poll_self horderly hconsumer hunread)
    · have hkept := (Queue.steady_next_ne horderly.inOrder.queue hsame).2 hconsumer
      show (hall.topic.queue.next other).2.unread consumer ≠ []
      rw [show (hall.topic.queue.next other).2.unread consumer = _ from hkept]
      exact hunread
  | elsewhere keeps => exact hunread

/-- **A batch that waits finds room when everything published has been read.** -/
theorem not_waits_of_drained (h : Orderly config folder hall)
    (hdrained : ∀ consumer, hall.topic.queue.IsConsumer consumer →
      hall.topic.queue.unread consumer = []) : ¬Waits hall next := by
  rintro ⟨worker_eq, resumed⟩
  have hready := h.inOrder.ready
  rw [show hall.run.worker = _ from worker_eq] at hready
  have hpublished := Queue.resume_of_drained h.inOrder.queue h.fluent.drainable hready.1
    (h.fluent.held worker_eq).2 hdrained
  rw [show hall.run.topic.queue.resume _ = _ from resumed] at hpublished
  cases hpublished

/-! ## Endless runs -/

/-- A run in which the worker goes on again and again, and every consumer polls again and again. -/
structure Fair (folder : Folder) (runs : Nat → Hall) : Prop where
  step : ∀ n, Step folder (runs n) (runs (n + 1))
  works : ∀ n, ∃ m, n ≤ m ∧ runs (m + 1) = (runs m).work
  polls : ∀ consumer, (runs 0).topic.queue.IsConsumer consumer →
    ∀ n, ∃ m, n ≤ m ∧ runs (m + 1) = (runs m).poll consumer

/-- The worker and the consumers take turns. -/
def turns (consumers : List ConsumerId) (start : Hall) : Nat → Hall
  | 0 => start
  | n + 1 =>
    match consumers[n % (consumers.length + 1)]? with
    | some consumer => (turns consumers start n).poll consumer
    | none => (turns consumers start n).work

/-- A queue has finitely many consumers. -/
theorem exists_consumers {α : Type} (queue : Queue α) :
    ∃ consumers : List ConsumerId, ∀ consumer, consumer ∈ consumers ↔ queue.IsConsumer consumer := by
  cases queue with
  | ring r => exact ⟨r.cursors.map Prod.fst, fun _ => isSome_lookup_iff.symm⟩
  | mailboxes boxes => exact ⟨boxes.inboxes.map Prod.fst, fun _ => isSome_lookup_iff.symm⟩

theorem exists_turn (n : Nat) {i size : Nat} (hi : i ≤ size) :
    ∃ m, n ≤ m ∧ m % (size + 1) = i := by
  refine ⟨n * (size + 1) + i, ?_, ?_⟩
  · exact Nat.le_trans (Nat.le_mul_of_pos_right n (Nat.succ_pos size)) (Nat.le_add_right _ _)
  · rw [Nat.mul_add_mod', Nat.mod_eq_of_lt (Nat.lt_succ_of_le hi)]

/-- Such runs begin everywhere. -/
theorem exists_fair (folder : Folder) (start : Hall) : ∃ runs, Fair folder runs ∧ runs 0 = start := by
  obtain ⟨consumers, hconsumers⟩ := exists_consumers start.topic.queue
  refine ⟨turns consumers start, ⟨fun n => ?_, fun n => ?_, fun consumer hconsumer n => ?_⟩, rfl⟩
  · rw [turns]
    cases consumers[n % (consumers.length + 1)]? with
    | none => exact .worked
    | some consumer => exact .polled consumer
  · obtain ⟨m, hm, hturn⟩ := exists_turn n (Nat.le_refl consumers.length)
    refine ⟨m, hm, ?_⟩
    rw [turns, hturn, List.getElem?_eq_none (Nat.le_refl _)]
  · obtain ⟨i, hi, hat⟩ := List.getElem_of_mem ((hconsumers consumer).2 hconsumer)
    obtain ⟨m, hm, hturn⟩ := exists_turn n (Nat.le_of_lt hi)
    refine ⟨m, hm, ?_⟩
    rw [turns, hturn, List.getElem?_eq_getElem hi, hat]

/-- What never grows from a point on stays the same in the end. -/
theorem exists_const {f : Nat → Nat} {n : Nat} (h : ∀ m, n ≤ m → f (m + 1) ≤ f m) :
    ∃ k, n ≤ k ∧ ∀ m, k ≤ m → f (m + 1) = f m := by
  have hfall : Antitone fun k => f (n + k) := antitone_nat_of_succ_le fun k => h (n + k) (by omega)
  obtain ⟨k, hk⟩ := WellFoundedLT.antitone_chain_condition hfall
  refine ⟨n + k, Nat.le_add_right n k, fun m hm => ?_⟩
  have hsame := hk (m - n) (by omega)
  have hnext := hk (m + 1 - n) (by omega)
  simp only [show n + (m - n) = m by omega, show n + (m + 1 - n) = m + 1 by omega] at hsame hnext
  rw [← hnext, hsame]

namespace Fair

variable (hfair : Fair folder runs) (h : Orderly config folder (runs 0))

include hfair

theorem leads (n : Nat) : Leads folder (runs 0) (runs n) := by
  induction n with
  | zero => exact .refl
  | succ n ih => exact ih.tail (hfair.step n)

include h

theorem orderly (n : Nat) : Orderly config folder (runs n) := h.leads (hfair.leads n)

theorem isConsumer_iff (n : Nat) (consumer : ConsumerId) :
    (runs n).topic.queue.IsConsumer consumer ↔ (runs 0).topic.queue.IsConsumer consumer := by
  refine ⟨fun hconsumer => ?_, fun hconsumer => (hears_leads h (hfair.leads n) hconsumer).isConsumer⟩
  induction n with
  | zero => exact hconsumer
  | succ n ih => exact ih (isConsumer_of_step (hfair.orderly h n) (hfair.step n) hconsumer)

/-- While the worker comes no further, a consumer comes to have seen everything. -/
theorem drained {n : Nat} (hlingers : ∀ m, n ≤ m → Lingers folder (runs m) (runs (m + 1)))
    (hconsumer : (runs 0).topic.queue.IsConsumer consumer) :
    ∃ k, ∀ m, k ≤ m → (runs m).topic.queue.unread consumer = [] := by
  have hthere : ∀ m, (runs m).topic.queue.IsConsumer consumer :=
    fun m => (hfair.isConsumer_iff h m consumer).2 hconsumer
  have hline : ∀ m, n ≤ m → ∃ given,
      (runs (m + 1)).heard consumer = (runs m).heard consumer ++ given ∧
        (runs m).run.line consumer = given ++ (runs (m + 1)).run.line consumer :=
    fun m hm => line_of_lingers (hfair.orderly h m) (hlingers m hm) (hthere m)
  have hfalls : ∀ m, n ≤ m →
      ((runs (m + 1)).run.line consumer).length ≤ ((runs m).run.line consumer).length := by
    intro m hm
    obtain ⟨given, -, hrow⟩ := hline m hm
    rw [hrow, List.length_append]
    exact Nat.le_add_left _ _
  obtain ⟨k, hk, hconst⟩ := exists_const (f := fun m => ((runs m).run.line consumer).length) hfalls
  -- from here on the consumer is given nothing any more
  have hsilent : ∀ m, k ≤ m → (runs (m + 1)).heard consumer = (runs m).heard consumer := by
    intro m hm
    obtain ⟨given, hgiven, hrow⟩ := hline m (Nat.le_trans hk hm)
    have hsame : ((runs (m + 1)).run.line consumer).length = ((runs m).run.line consumer).length :=
      hconst m hm
    rw [hrow, List.length_append] at hsame
    have hnone : given = [] := List.eq_nil_of_length_eq_zero (by omega)
    rw [hgiven, hnone, List.append_nil]
  refine ⟨k, fun m hm => ?_⟩
  by_contra hunread
  have hstays : ∀ j, m ≤ j → (runs j).topic.queue.unread consumer ≠ [] := by
    intro j hj
    induction j, hj using Nat.le_induction with
    | base => exact hunread
    | succ j hj ih =>
      exact unread_of_lingers (hfair.orderly h j) (hlingers j (by omega)) (hthere j) ih
        (hsilent j (by omega))
  obtain ⟨j, hj, hpoll⟩ := hfair.polls consumer hconsumer m
  have hgiven := heard_poll_self (hfair.orderly h j) (hthere j) (hstays j hj)
  rw [← hpoll] at hgiven
  exact hgiven (hsilent j (by omega))

/-- **Where the worker and the consumers go on again and again, everything is answered in the end,
and everything that was published is read.** -/
theorem settles : ∃ n, (runs n).Done ∧ ∀ consumer, (runs 0).topic.queue.IsConsumer consumer →
    (runs n).topic.queue.unread consumer = [] := by
  obtain ⟨n, -, hconst⟩ := exists_const (f := fun m => (runs m).stepsLeft) (n := 0)
    fun m _ => stepsLeft_step (hfair.step m)
  have hlingers : ∀ m, n ≤ m → Lingers folder (runs m) (runs (m + 1)) :=
    fun m hm => ⟨hfair.step m, Nat.le_of_eq (hconst m hm).symm⟩
  obtain ⟨consumers, hconsumers⟩ := exists_consumers (runs 0).topic.queue
  have hdrained : ∀ᶠ m in Filter.atTop, ∀ consumer ∈ consumers,
      (runs m).topic.queue.unread consumer = [] := by
    refine (Filter.eventually_all_finite (List.finite_toSet consumers)).2 fun consumer hmem => ?_
    exact Filter.eventually_atTop.2 (hfair.drained h hlingers ((hconsumers consumer).1 hmem))
  obtain ⟨k, hk⟩ := Filter.eventually_atTop.1 hdrained
  obtain ⟨m, hm, hwork⟩ := hfair.works (max n k)
  have hread : ∀ consumer, (runs 0).topic.queue.IsConsumer consumer →
      (runs m).topic.queue.unread consumer = [] :=
    fun consumer hconsumer => hk m (by omega) consumer ((hconsumers consumer).2 hconsumer)
  have hworked := work_cases (runs m)
  rw [← hwork] at hworked
  rcases stepsLeft_worked hworked with hless | ⟨hdone, -⟩ | hwaits
  · have hsame := hconst m (by omega)
    omega
  · exact ⟨m, hdone, hread⟩
  · refine absurd hwaits (not_waits_of_drained (hfair.orderly h m) fun consumer hconsumer => ?_)
    exact hread consumer ((hfair.isConsumer_iff h m consumer).1 hconsumer)

end Fair

end CommitLog.Batching
