import CommitLog.Proofs.Handover.Run
import CommitLog.Proofs.Queue.Handing

/-!
# What writers do to a subscription

A consumer has a line of commits in front of it: those in the queue that it has not seen, and
behind them those that the worker has not handed to the queue yet. Everything that happens around a
subscription leaves the line alone, but for commits that are made: they go to its end, in the order
of the log (`happens_inOrder`).
-/

namespace CommitLog.Handover

open CommitLog.Disk (Place Keeps)
open CommitLog.Queue (ConsumerId Handed Hands Steady)
open CommitLog.Topic (Agrees Backlog Folder commitsOf pieces publishBatch)

variable {σ : Type} {config : Config} {folder : Folder} {run next : Run σ} {worker moved : Worker}
  {topic after : Topic} {env later : Env} {queue : Queue RawCommit} {consumer : ConsumerId}

namespace Worker

/-- What the worker is still to hand to the queue for a consumer. -/
def owed (queue : Queue RawCommit) (consumer : ConsumerId) : Worker → List RawCommit
  | idle => []
  | appending _ results => commitsOf results
  | publishing _ batches => batches.flatten
  | held _ backlog => queue.owed backlog.publication consumer ++ backlog.later.flatten

/-- A row of batches that the queue takes. -/
def AllFit (queue : Queue RawCommit) (batches : List (List RawCommit)) : Prop :=
  ∀ batch ∈ batches, batch ≠ [] ∧ queue.Takes batch.length

/-- The worker can go on: no publication waits but the one that it holds. -/
def Ready (queue : Queue RawCommit) : Worker → Prop
  | idle => queue.isBusy = false
  | appending _ _ => queue.isBusy = false
  | publishing _ batches => queue.isBusy = false ∧ AllFit queue batches
  | held _ backlog => queue.Resumable backlog.publication ∧ AllFit queue backlog.later

end Worker

/-- The commits that a consumer has in front of it. -/
def Run.line (run : Run σ) (consumer : ConsumerId) : List RawCommit :=
  run.topic.queue.unread consumer ++ run.worker.owed run.topic.queue consumer

/-- Files, indexes and commits agree, and the worker and the queue are in order. -/
structure InOrder (config : Config) (folder : Folder) (run : Run σ) : Prop where
  agrees : Agrees config run.topic run.env.disk folder run.commits
  queue : run.topic.queue.Sound
  ready : run.worker.Ready run.topic.queue

/-- A consumer is still there, and what was committed has gone to the end of its line. -/
def Extends (run next : Run σ) (consumer : ConsumerId) : Prop :=
  run.topic.queue.IsConsumer consumer →
    next.topic.queue.IsConsumer consumer ∧
      ∃ more, next.commits = run.commits ++ more ∧
        next.line consumer = run.line consumer ++ more

/-! ## Batches -/

theorem flatten_pieces {α : Type} (size : Nat) (items : List α) :
    (pieces size items).flatten = items := by
  fun_induction pieces size items with
  | case1 => rfl
  | case2 item rest ih =>
    rw [List.flatten_cons, ih, List.cons_append, List.take_append_drop]

theorem mem_pieces {α : Type} {size : Nat} {items piece : List α} (h : piece ∈ pieces size items) :
    piece ≠ [] ∧ piece.length ≤ max size 1 := by
  fun_induction pieces size items with
  | case1 => simp at h
  | case2 item rest ih =>
    rcases List.mem_cons.1 h with rfl | h
    · refine ⟨by simp, ?_⟩
      rw [List.length_cons, List.length_take]
      omega
    · exact ih h

theorem allFit_pieces (queue : Queue RawCommit) (commits : List RawCommit) :
    Worker.AllFit queue (pieces (queue.capacity?.getD commits.length) commits) := by
  intro batch hbatch
  obtain ⟨hne, hlength⟩ := mem_pieces hbatch
  refine ⟨hne, ?_⟩
  intro capacity hcapacity
  cases queue with
  | ring r =>
    obtain rfl := Option.some.inj hcapacity
    have hpos : 0 < r.capacity := r.slots_pos
    simp only [Queue.capacity?, Option.getD_some] at hlength
    omega
  | mailboxes boxes => simp [Queue.capacity?] at hcapacity

theorem Worker.AllFit.congr {last : Queue RawCommit} {batches : List (List RawCommit)}
    (h : Worker.AllFit queue batches) (hcapacity : last.capacity? = queue.capacity?) :
    Worker.AllFit last batches :=
  fun batch hbatch => ⟨(h batch hbatch).1, (h batch hbatch).2.steady hcapacity⟩

theorem publishBatch_handed {batch : List RawCommit} {progress : Queue.Progress RawCommit}
    {last : Queue RawCommit} (h : queue.Sound) (hidle : queue.isBusy = false) (hbatch : batch ≠ [])
    (htakes : queue.Takes batch.length) (hrun : publishBatch queue batch = (progress, last)) :
    queue.Handed (fun _ => batch) progress last := by
  unfold publishBatch at hrun
  rw [Queue.ofBatch_of_takes h htakes] at hrun
  exact Queue.publish_handed h hidle hbatch htakes hrun

/-! ## The worker -/

theorem commitsOf_append (front rest : List (Except LogError RawOutcome)) :
    commitsOf (front ++ rest) = commitsOf front ++ commitsOf rest := List.filterMap_append

theorem commitsOf_singleton (result : Except LogError RawOutcome) :
    commitsOf [result] = (result.toOption.bind Outcome.commit?).toList := by
  rw [Topic.commitsOf_cons]
  exact List.append_nil _

/-- Only the queue of a topic has changed. -/
theorem inOrder_queue {last : Topic} (h : InOrder config folder run)
    (hpartitions : last.partitions = run.topic.partitions)
    (hmax : last.maxEntryBytes = run.topic.maxEntryBytes) (hqueue : last.queue.Sound)
    (hmoved : moved.Ready last.queue) (hcommits : moved.commits = run.worker.commits) :
    InOrder config folder { run with worker := moved, topic := last } where
  agrees := by
    have hagrees := h.agrees.of_partitions hpartitions hmax
    rw [Run.commits] at hagrees ⊢
    rw [hcommits]
    exact hagrees
  queue := hqueue
  ready := hmoved

/-- A batch that the queue is given goes to the end of what consumers have not seen, or is owed to
them still. -/
theorem inOrder_handed {owed : ConsumerId → List RawCommit} {progress : Queue.Progress RawCommit}
    {last : Queue RawCommit} {results : List (Except LogError RawOutcome)}
    {rest : List (List RawCommit)} (h : InOrder config folder run)
    (hhanded : run.topic.queue.Handed owed progress last)
    (hfit : Worker.AllFit run.topic.queue rest) (hcommits : run.worker.commits = commitsOf results)
    (howed : ∀ consumer, run.worker.owed run.topic.queue consumer
      = owed consumer ++ rest.flatten)
    (hmoved : Worker.afterBatch results rest run.topic (progress, last) = (moved, after)) :
    InOrder config folder { run with worker := moved, topic := after } ∧
      ∀ consumer, Extends run { run with worker := moved, topic := after } consumer := by
  -- a commit that goes from the worker to the queue stays in its place in every line
  have hline : ∀ {left : ConsumerId → List RawCommit}, run.topic.queue.Hands owed left last →
      after.queue = last → moved.commits = commitsOf results →
      (∀ consumer, moved.owed last consumer = left consumer ++ rest.flatten) →
      ∀ consumer, Extends run { run with worker := moved, topic := after } consumer := by
    intro left hands hqueue hmade hleft consumer hconsumer
    refine ⟨by rw [hqueue]; exact hands.isConsumer consumer hconsumer, [], ?_, ?_⟩
    · rw [List.append_nil, Run.commits, Run.commits, hcommits, hmade]
    · show after.queue.unread consumer ++ moved.owed after.queue consumer = _
      rw [hqueue, hleft, ← List.append_assoc, hands.unread consumer hconsumer, Run.line, howed,
        List.append_nil, List.append_assoc]
  cases hhanded with
  | published hidle hands =>
    obtain ⟨rfl, rfl⟩ := hmoved
    exact ⟨inOrder_queue h rfl rfl hands.sound ⟨hidle, hfit.congr hands.capacity?_eq⟩ hcommits.symm,
      hline hands rfl rfl fun _ => rfl⟩
  | waiting hresumable hands =>
    obtain ⟨rfl, rfl⟩ := hmoved
    exact ⟨inOrder_queue h rfl rfl hands.sound ⟨hresumable, hfit.congr hands.capacity?_eq⟩
      hcommits.symm, hline hands rfl rfl fun _ => rfl⟩

/-- A batch is handed to the queue. -/
theorem inOrder_publishing {results : List (Except LogError RawOutcome)} {batch : List RawCommit}
    {rest : List (List RawCommit)} (h : InOrder config folder run)
    (hworker : run.worker = .publishing results (batch :: rest))
    (hmoved : run.worker.advance run.topic run.env = (moved, after, later)) :
    InOrder config folder { run with worker := moved, topic := after, env := later } ∧
      ∀ consumer, Extends run { run with worker := moved, topic := after, env := later }
        consumer := by
  have hready := h.ready
  rw [hworker] at hready hmoved
  obtain ⟨hidle, hfit⟩ := hready
  obtain ⟨hne, htakes⟩ := hfit batch List.mem_cons_self
  have hhanded := publishBatch_handed h.queue hidle hne htakes rfl
  obtain ⟨rfl, rfl, rfl⟩ := hmoved
  exact inOrder_handed h hhanded (fun x hx => hfit x (List.mem_cons_of_mem _ hx))
    (by rw [hworker]; rfl) (fun _ => by rw [hworker]; rfl) rfl

/-- A batch that has waited goes on. -/
theorem inOrder_held {results : List (Except LogError RawOutcome)} {backlog : Backlog}
    (h : InOrder config folder run) (hworker : run.worker = .held results backlog)
    (hmoved : run.worker.advance run.topic run.env = (moved, after, later)) :
    InOrder config folder { run with worker := moved, topic := after, env := later } ∧
      ∀ consumer, Extends run { run with worker := moved, topic := after, env := later }
        consumer := by
  have hready := h.ready
  rw [hworker] at hready hmoved
  obtain ⟨hresumable, hfit⟩ := hready
  have hhanded := Queue.resume_handed h.queue hresumable rfl
  obtain ⟨rfl, rfl, rfl⟩ := hmoved
  exact inOrder_handed h hhanded hfit (by rw [hworker]; rfl) (fun _ => by rw [hworker]; rfl) rfl

/-- An attempt is appended; a commit goes to the end of every line. -/
theorem inOrder_appending {attempt : RawAttempt} {rest : List RawAttempt}
    {results : List (Except LogError RawOutcome)} (h : InOrder config folder run)
    (hworker : run.worker = .appending (attempt :: rest) results)
    (hmoved : run.worker.advance run.topic run.env = (moved, after, later)) :
    InOrder config folder { run with worker := moved, topic := after, env := later } ∧
      ∀ consumer, Extends run { run with worker := moved, topic := after, env := later }
        consumer := by
  have hready := h.ready
  rw [hworker] at hready hmoved
  rcases hrun : run.topic.append attempt run.env with ⟨result, last, reached⟩
  simp only [Worker.advance, hrun] at hmoved
  obtain ⟨rfl, rfl, rfl⟩ := hmoved
  obtain ⟨hagrees, -, honly⟩ := Topic.append_agrees h.agrees attempt hrun
  have hqueue : after.queue = run.topic.queue := by rw [honly]
  have hcommits : run.past ++ commitsOf (results ++ [result])
      = run.commits ++ (result.toOption.bind Outcome.commit?).toList := by
    rw [commitsOf_append, commitsOf_singleton, ← List.append_assoc, Run.commits, hworker]
    rfl
  refine ⟨⟨?_, ?_, ?_⟩, ?_⟩
  · show Agrees config after later.disk folder (run.past ++ commitsOf (results ++ [result]))
    rw [hcommits]
    exact hagrees
  · rw [hqueue]
    exact h.queue
  · show after.queue.isBusy = false
    rw [hqueue]
    exact hready
  · intro consumer hconsumer
    refine ⟨by rw [hqueue]; exact hconsumer, (result.toOption.bind Outcome.commit?).toList,
      hcommits, ?_⟩
    show after.queue.unread consumer ++ commitsOf (results ++ [result]) = _
    rw [hqueue, commitsOf_append, commitsOf_singleton, ← List.append_assoc, Run.line, hworker]
    rfl

/-- The commits of a unit are cut into batches. -/
theorem inOrder_cut {results : List (Except LogError RawOutcome)} (h : InOrder config folder run)
    (hworker : run.worker = .appending [] results)
    (hmoved : run.worker.advance run.topic run.env = (moved, after, later)) :
    InOrder config folder { run with worker := moved, topic := after, env := later } ∧
      ∀ consumer, Extends run { run with worker := moved, topic := after, env := later }
        consumer := by
  have hready := h.ready
  rw [hworker] at hready hmoved
  simp only [Worker.advance] at hmoved
  obtain ⟨rfl, rfl, rfl⟩ := hmoved
  refine ⟨inOrder_queue h rfl rfl h.queue ⟨hready, allFit_pieces _ _⟩ (by rw [hworker]; rfl), ?_⟩
  intro consumer hconsumer
  refine ⟨hconsumer, [], ?_, ?_⟩
  · rw [List.append_nil, Run.commits, Run.commits, hworker]
    rfl
  · show _ ++ (pieces _ _).flatten = _
    rw [flatten_pieces, List.append_nil, Run.line, hworker]
    rfl

theorem extends_refl (run : Run σ) (consumer : ConsumerId) : Extends run run consumer :=
  fun hconsumer => ⟨hconsumer, [], (List.append_nil _).symm, (List.append_nil _).symm⟩

/-- **Whatever the worker does, everything stays in order.** -/
theorem inOrder_worked (h : InOrder config folder run)
    (hmoved : run.worker.advance run.topic run.env = (moved, after, later)) :
    InOrder config folder { run with worker := moved, topic := after, env := later } ∧
      ∀ consumer, Extends run { run with worker := moved, topic := after, env := later }
        consumer := by
  have hstay : (moved, after, later) = (run.worker, run.topic, run.env) →
      InOrder config folder { run with worker := moved, topic := after, env := later } ∧
        ∀ consumer, Extends run { run with worker := moved, topic := after, env := later }
          consumer := by
    rintro ⟨rfl, rfl, rfl⟩
    exact ⟨h, fun consumer => extends_refl run consumer⟩
  cases hworker : run.worker with
  | idle =>
    rw [hworker] at hmoved
    exact hstay (by rw [hworker, ← hmoved]; rfl)
  | appending attempts results =>
    cases attempts with
    | nil => exact inOrder_cut h hworker hmoved
    | cons attempt rest => exact inOrder_appending h hworker hmoved
  | publishing results batches =>
    cases batches with
    | nil =>
      rw [hworker] at hmoved
      exact hstay (by rw [hworker, ← hmoved]; rfl)
    | cons batch rest => exact inOrder_publishing h hworker hmoved
  | held results backlog => exact inOrder_held h hworker hmoved

/-! ## Everything around a subscription -/

theorem ready_steady {last : Queue RawCommit} (h : worker.Ready queue)
    (hsteady : queue.Steady last consumer) : worker.Ready last := by
  cases worker with
  | idle => exact hsteady.isBusy_eq.trans h
  | appending attempts results => exact hsteady.isBusy_eq.trans h
  | publishing results batches =>
    exact ⟨hsteady.isBusy_eq.trans h.1, h.2.congr hsteady.capacity?_eq⟩
  | held results backlog => exact ⟨hsteady.resumable _ h.1, h.2.congr hsteady.capacity?_eq⟩

theorem owed_steady {last : Queue RawCommit} (h : worker.Ready queue)
    (hsteady : queue.Steady last consumer) :
    worker.owed last consumer = worker.owed queue consumer := by
  cases worker with
  | idle => rfl
  | appending attempts results => rfl
  | publishing results batches => rfl
  | held results backlog => simp only [Worker.owed, hsteady.owed _ h.1]

/-- The queue as somebody else leaves it. -/
theorem inOrder_steady {last : Queue RawCommit} (h : InOrder config folder run)
    (hsteady : run.topic.queue.Steady last consumer) :
    InOrder config folder { run with topic := { run.topic with queue := last } } where
  agrees := h.agrees.of_partitions rfl rfl
  queue := hsteady.sound
  ready := ready_steady h.ready hsteady

theorem extends_steady {last : Queue RawCommit} (h : InOrder config folder run)
    (hsteady : run.topic.queue.Steady last consumer)
    (hunread : run.topic.queue.IsConsumer consumer →
      last.unread consumer = run.topic.queue.unread consumer) :
    Extends run { run with topic := { run.topic with queue := last } } consumer := by
  intro hconsumer
  refine ⟨hsteady.isConsumer hconsumer, [], (List.append_nil _).symm, ?_⟩
  show last.unread consumer ++ run.worker.owed last consumer = _
  rw [hunread hconsumer, owed_steady h.ready hsteady, List.append_nil]
  rfl

/-- **What happens around a subscription keeps everything in order**, and takes nothing out of the
line of its consumer. -/
theorem happens_inOrder (h : InOrder config folder run) (hstep : Happens folder run next) :
    InOrder config folder next ∧ next.phase = run.phase ∧
      ∀ consumer, run.phase.consumer? = some consumer → Extends run next consumer := by
  cases hstep with
  | submitted attempts idle =>
    have hready := h.ready
    have hagrees := h.agrees
    unfold Run.commits at hagrees
    rw [idle] at hagrees
    rw [idle] at hready
    refine ⟨⟨hagrees, h.queue, hready⟩, rfl, fun consumer _ hconsumer => ⟨hconsumer, [], ?_, ?_⟩⟩
    · rw [List.append_nil, Run.commits, Run.commits, idle]
      rfl
    · rw [List.append_nil, Run.line, Run.line, idle]
      rfl
  | worked =>
    obtain ⟨hnext, hextends⟩ := inOrder_worked h rfl
    exact ⟨hnext, rfl, fun consumer _ => hextends consumer⟩
  | finished worker_eq =>
    have hready := h.ready
    have hagrees := h.agrees
    rw [worker_eq] at hready
    rw [← List.append_nil run.commits] at hagrees
    refine ⟨⟨hagrees, h.queue, hready.1⟩, rfl, fun consumer _ hconsumer => ⟨hconsumer, [], rfl, ?_⟩⟩
    rw [List.append_nil, Run.line, Run.line, worker_eq]
    rfl
  | otherRegistered =>
    refine ⟨inOrder_steady h (Queue.steady_subscribe h.queue 0).1, rfl, fun consumer _ => ?_⟩
    obtain ⟨hsteady, hunread⟩ := Queue.steady_subscribe h.queue consumer
    exact extends_steady h hsteady hunread
  | otherPolled other ne =>
    refine ⟨inOrder_steady h (Queue.steady_next h.queue other), rfl, fun consumer hconsumer => ?_⟩
    have hne : other ≠ consumer := by
      rintro rfl
      exact ne hconsumer
    obtain ⟨hsteady, hunread⟩ := Queue.steady_next_ne h.queue hne
    exact extends_steady h hsteady hunread
  | otherLeft other ne =>
    have hapart : other ≠ other + 1 := Nat.ne_of_lt (Nat.lt_succ_self _)
    refine ⟨inOrder_steady h (Queue.steady_unsubscribe h.queue hapart).1, rfl,
      fun consumer hconsumer => ?_⟩
    have hne : other ≠ consumer := by
      rintro rfl
      exact ne hconsumer
    obtain ⟨hsteady, hunread⟩ := Queue.steady_unsubscribe h.queue hne
    exact extends_steady h hsteady hunread
  | elsewhere keeps =>
    exact ⟨⟨h.agrees.keeps keeps fun _ hplace => hplace, h.queue, h.ready⟩, rfl,
      fun consumer _ => extends_refl run consumer⟩

end CommitLog.Handover
