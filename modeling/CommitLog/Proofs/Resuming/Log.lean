import CommitLog.Proofs.Handover.Seamless
import CommitLog.Proofs.Queue.Shut
import CommitLog.Proofs.Resuming.Run

/-!
# The log around the sessions

While the queue of a topic takes batches, everything is in order as it is for a single subscription.
Once it was stopped, writers may still come to the end of what they have begun, but their commits
reach the files only: what a consumer is still to be given is a front of what it has not seen
(`Faces`), and it grows no more. A topic that is opened again has the commits that it had.
-/

namespace CommitLog.Resuming

open CommitLog.Disk (Keeps Place top)
open CommitLog.Frame (IsCommit)
open CommitLog.Handover
open CommitLog.Partition (encodeAll)
open CommitLog.Queue (ConsumerId Settled)
open CommitLog.Topic (Agrees Backlog Folder IsHistory Stored commitsOf mem_partitionNumbers
  partitionNumbers partitionNumbers_congr publishBatch)

variable {σ : Type} {config settings : Config} {root : Path} {folder : Folder} {home : Place}
  {run next : Run σ} {worker moved : Worker} {topic after : Topic} {env later : Env}
  {queue last : Queue RawCommit} {consumer : ConsumerId} {commits seen : List RawCommit}

/-! ## What a consumer is still to be given -/

/-- What a batch that waits may still bring to a consumer. -/
def awaited (queue : Queue RawCommit) (consumer : ConsumerId) : Worker → List RawCommit
  | .held _ backlog => queue.owed backlog.publication consumer
  | _ => []

/-- What a consumer has in front of it comes right behind what it has seen. While the queue takes
batches that is all there is; when it was stopped, something may never come. -/
def Faces (run : Run σ) (seen : List RawCommit) (consumer : ConsumerId) : Prop :=
  run.topic.queue.IsConsumer consumer ∧
    ∃ rest, run.commits = seen ++ (run.topic.queue.unread consumer ++ rest) ∧
      if run.topic.queue.isClosed then awaited run.topic.queue consumer run.worker <+: rest
      else rest = run.worker.owed run.topic.queue consumer

/-- Files, indexes and commits agree, and the queue was stopped. -/
structure Halted (config : Config) (folder : Folder) (run : Run σ) : Prop where
  agrees : Agrees config run.topic run.env.disk folder run.commits
  shut : run.topic.queue.Shut
  resumable : ∀ results backlog, run.worker = .held results backlog →
    run.topic.queue.Resumable backlog.publication

/-- The log is in order, whether the queue takes batches or was stopped. -/
inductive Orderly (config : Config) (folder : Folder) (run : Run σ) : Prop where
  | inOrder (h : InOrder config folder run)
  | halted (h : Halted config folder run)

theorem Orderly.agrees (h : Orderly config folder run) :
    Agrees config run.topic run.env.disk folder run.commits := by
  cases h with
  | inOrder h => exact h.agrees
  | halted h => exact h.agrees

theorem faces_iff_of_inOrder (h : InOrder config folder run) :
    Faces run seen consumer ↔
      run.topic.queue.IsConsumer consumer ∧ run.commits = seen ++ run.line consumer := by
  simp only [Faces, Queue.isClosed_of_sound h.queue, Bool.false_eq_true, if_false,
    exists_eq_right]
  rfl

theorem faces_of_shut (rest : List RawCommit) (h : run.topic.queue.Shut)
    (hconsumer : run.topic.queue.IsConsumer consumer)
    (hcommits : run.commits = seen ++ (run.topic.queue.unread consumer ++ rest))
    (hrest : awaited run.topic.queue consumer run.worker <+: rest) : Faces run seen consumer := by
  refine ⟨hconsumer, rest, hcommits, ?_⟩
  rw [if_pos (Queue.isClosed_of_shut h)]
  exact hrest

theorem Faces.exists_rest (hfaces : Faces run seen consumer) (h : run.topic.queue.Shut) :
    ∃ rest, run.commits = seen ++ (run.topic.queue.unread consumer ++ rest) ∧
      awaited run.topic.queue consumer run.worker <+: rest := by
  obtain ⟨-, rest, hcommits, hrest⟩ := hfaces
  rw [if_pos (Queue.isClosed_of_shut h)] at hrest
  exact ⟨rest, hcommits, hrest⟩

theorem awaited_prefix_owed (queue : Queue RawCommit) (consumer : ConsumerId) (worker : Worker) :
    awaited queue consumer worker <+: worker.owed queue consumer := by
  cases worker with
  | held results backlog => exact List.prefix_append _ _
  | idle => exact List.nil_prefix
  | appending attempts results => exact List.nil_prefix
  | publishing results batches => exact List.nil_prefix

theorem awaited_of_not_held (queue : Queue RawCommit) (consumer : ConsumerId)
    (h : ∀ results backlog, worker ≠ .held results backlog) :
    awaited queue consumer worker = [] := by
  cases worker with
  | held results backlog => exact absurd rfl (h results backlog)
  | idle => rfl
  | appending attempts results => rfl
  | publishing results batches => rfl

theorem awaited_settled (h : queue.Settled last consumer) (worker : Worker) :
    awaited last consumer worker = awaited queue consumer worker := by
  cases worker with
  | held results backlog => exact h.owed _
  | idle => rfl
  | appending attempts results => rfl
  | publishing results batches => rfl

/-! ## Queues that were stopped -/

/-- Only the queue has changed, or where the worker is. -/
theorem Halted.replace (h : Halted config folder run)
    (hpartitions : after.partitions = run.topic.partitions)
    (hmax : after.maxEntryBytes = run.topic.maxEntryBytes) (hshut : after.queue.Shut)
    (hresumable : ∀ results backlog, moved = .held results backlog →
      after.queue.Resumable backlog.publication)
    (hcommits : moved.commits = run.worker.commits) :
    Halted config folder { run with worker := moved, topic := after } where
  agrees := by
    have hagrees := h.agrees.of_partitions hpartitions hmax
    rw [Run.commits] at hagrees ⊢
    rw [hcommits]
    exact hagrees
  shut := hshut
  resumable := hresumable

/-- The queue as somebody else leaves it. -/
theorem Halted.settled (h : Halted config folder run)
    (hsettled : run.topic.queue.Settled last consumer) :
    Halted config folder { run with topic := { run.topic with queue := last } } :=
  h.replace rfl rfl hsettled.shut
    (fun results backlog hheld => hsettled.resumable _ (h.resumable results backlog hheld)) rfl

theorem Faces.settled (hfaces : Faces run seen consumer) (h : run.topic.queue.Shut)
    (hsettled : run.topic.queue.Settled last consumer)
    (hunread : last.unread consumer = run.topic.queue.unread consumer) :
    Faces { run with topic := { run.topic with queue := last } } seen consumer := by
  obtain ⟨rest, hcommits, hrest⟩ := hfaces.exists_rest h
  refine faces_of_shut rest hsettled.shut (hsettled.isConsumer hfaces.1) ?_ ?_
  · rw [hunread]
    exact hcommits
  · rw [awaited_settled hsettled]
    exact hrest

/-- The worker comes to another place of its unit, where it holds no batch. -/
theorem Halted.place {past : List RawCommit} (h : Halted config folder run)
    (hcommits : past ++ moved.commits = run.commits)
    (hnone : ∀ results backlog, moved ≠ .held results backlog) :
    Halted config folder { run with worker := moved, past } ∧
      ∀ seen consumer, Faces run seen consumer →
        Faces { run with worker := moved, past } seen consumer := by
  refine ⟨⟨?_, h.shut, fun _ _ hheld => absurd hheld (hnone _ _)⟩, fun seen consumer hfaces => ?_⟩
  · show Agrees config run.topic run.env.disk folder (past ++ moved.commits)
    rw [hcommits]
    exact h.agrees
  · obtain ⟨rest, hall, -⟩ := hfaces.exists_rest h.shut
    refine faces_of_shut rest h.shut hfaces.1 (hcommits.trans hall) ?_
    rw [awaited_of_not_held _ _ hnone]
    exact List.nil_prefix

/-- An attempt is appended; its commit reaches nobody. -/
theorem halted_appending {attempt : RawAttempt} {attempts : List RawAttempt}
    {results : List (Except LogError RawOutcome)} (h : Halted config folder run)
    (hworker : run.worker = .appending (attempt :: attempts) results)
    (hmoved : run.worker.advance run.topic run.env = (moved, after, later)) :
    Halted config folder { run with worker := moved, topic := after, env := later } ∧
      ∀ seen consumer, Faces run seen consumer →
        Faces { run with worker := moved, topic := after, env := later } seen consumer := by
  rw [hworker] at hmoved
  rcases hrun : run.topic.append attempt run.env with ⟨result, appended, reached⟩
  simp only [Worker.advance, hrun] at hmoved
  obtain ⟨rfl, rfl, rfl⟩ := hmoved
  obtain ⟨hagrees, -, honly⟩ := Topic.append_agrees h.agrees attempt hrun
  have hqueue : after.queue = run.topic.queue := by rw [honly]
  have hcommits : run.past ++ commitsOf (results ++ [result])
      = run.commits ++ (result.toOption.bind Outcome.commit?).toList := by
    rw [commitsOf_append, commitsOf_singleton, ← List.append_assoc, Run.commits, hworker]
    rfl
  have hshut : after.queue.Shut := by rw [hqueue]; exact h.shut
  refine ⟨⟨?_, hshut, by simp⟩, fun seen consumer hfaces => ?_⟩
  · show Agrees config after later.disk folder (run.past ++ commitsOf (results ++ [result]))
    rw [hcommits]
    exact hagrees
  · obtain ⟨rest, hall, -⟩ := hfaces.exists_rest h.shut
    have hlonger : run.past ++ commitsOf (results ++ [result])
        = seen ++ (after.queue.unread consumer
          ++ (rest ++ (result.toOption.bind Outcome.commit?).toList)) := by
      rw [hcommits, hall, hqueue, List.append_assoc, List.append_assoc]
    exact faces_of_shut _ hshut (by rw [hqueue]; exact hfaces.1) hlonger List.nil_prefix

/-- A batch that has waited comes to a consumer, or never will. -/
theorem halted_held {results : List (Except LogError RawOutcome)} {backlog : Backlog}
    (h : Halted config folder run) (hworker : run.worker = .held results backlog)
    (hmoved : run.worker.advance run.topic run.env = (moved, after, later)) :
    Halted config folder { run with worker := moved, topic := after, env := later } ∧
      ∀ seen consumer, Faces run seen consumer →
        Faces { run with worker := moved, topic := after, env := later } seen consumer := by
  rcases hresume : run.topic.queue.resume backlog.publication with ⟨progress, queue⟩
  obtain ⟨hshut, hends, hconsumers⟩ :=
    Queue.resume_shut h.shut (h.resumable results backlog hworker) hresume
  rw [hworker] at hmoved
  simp only [Worker.advance, hresume] at hmoved
  have hafter : ∃ batches, moved = .publishing results batches ∧
      after.partitions = run.topic.partitions ∧
      after.maxEntryBytes = run.topic.maxEntryBytes ∧ after.queue = queue ∧ later = run.env := by
    cases progress with
    | published =>
      obtain ⟨rfl, rfl, rfl⟩ := hmoved
      exact ⟨_, rfl, rfl, rfl, rfl, rfl⟩
    | rejected rejected =>
      obtain ⟨rfl, rfl, rfl⟩ := hmoved
      exact ⟨_, rfl, rfl, rfl, rfl, rfl⟩
    | waiting publication => exact absurd rfl (hends publication)
  obtain ⟨batches, rfl, hpartitions, hmax, rfl, rfl⟩ := hafter
  refine ⟨h.replace hpartitions hmax hshut (by simp) (by rw [hworker]; rfl),
    fun seen consumer hfaces => ?_⟩
  obtain ⟨rest, hall, hrest⟩ := hfaces.exists_rest h.shut
  obtain ⟨hstays, hunread⟩ := hconsumers consumer hfaces.1
  have hcommits : Run.commits
      { run with worker := .publishing results batches, topic := after, env := run.env }
        = run.commits := by
    rw [Run.commits, Run.commits, hworker]
    rfl
  rw [hworker] at hrest
  obtain ⟨lost, hlost⟩ := hrest
  rcases hunread with hsame | hgiven
  · exact faces_of_shut rest hshut hstays (by rw [hcommits, hall, hsame]) List.nil_prefix
  · refine faces_of_shut lost hshut hstays ?_ List.nil_prefix
    rw [hcommits, hall, hgiven, ← hlost, List.append_assoc]
    rfl

/-- **When the queue was stopped, the worker takes nothing from anybody.** -/
theorem halted_worked (h : Halted config folder run)
    (hmoved : run.worker.advance run.topic run.env = (moved, after, later)) :
    Halted config folder { run with worker := moved, topic := after, env := later } ∧
      ∀ seen consumer, Faces run seen consumer →
        Faces { run with worker := moved, topic := after, env := later } seen consumer := by
  have hplace : ∀ {other : Worker}, (other, run.topic, run.env) = (moved, after, later) →
      other.commits = run.worker.commits →
      (∀ results backlog, other ≠ .held results backlog) →
      Halted config folder { run with worker := moved, topic := after, env := later } ∧
        ∀ seen consumer, Faces run seen consumer →
          Faces { run with worker := moved, topic := after, env := later } seen consumer := by
    rintro other ⟨rfl, rfl, rfl⟩ hcommits hnone
    exact h.place (by rw [hcommits]; rfl) hnone
  cases hworker : run.worker with
  | idle =>
    rw [hworker] at hmoved hplace
    exact hplace hmoved rfl (by simp)
  | appending attempts results =>
    cases attempts with
    | cons attempt rest => exact halted_appending h hworker hmoved
    | nil =>
      rw [hworker] at hmoved hplace
      exact hplace hmoved rfl (by simp)
  | publishing results batches =>
    rw [hworker] at hplace
    cases batches with
    | nil =>
      rw [hworker] at hmoved
      exact hplace hmoved rfl (by simp)
    | cons batch rest =>
      have hrefused : publishBatch run.topic.queue batch
          = (.rejected ⟨.closed, batch⟩, run.topic.queue) := by
        unfold publishBatch
        rw [Queue.ofBatch_of_closed (Queue.isClosed_of_shut h.shut)]
      rw [hworker] at hmoved
      simp only [Worker.advance, hrefused, Worker.afterBatch] at hmoved
      exact hplace hmoved rfl (by simp)
  | held results backlog => exact halted_held h hworker hmoved

/-- **When the queue was stopped, nothing that happens takes anything from a consumer.** -/
theorem happens_halted (h : Halted config folder run) (hstep : Happens folder run next) :
    Halted config folder next ∧ next.phase = run.phase ∧
      ∀ seen consumer, run.phase.consumer? = some consumer → Faces run seen consumer →
        Faces next seen consumer := by
  cases hstep with
  | submitted attempts idle =>
    have hmade : run.past ++ Worker.commits (.appending attempts []) = run.commits := by
      rw [Run.commits, idle]
      rfl
    obtain ⟨hnext, hfaces⟩ := h.place hmade (by simp)
    exact ⟨hnext, rfl, fun seen consumer _ => hfaces seen consumer⟩
  | worked =>
    obtain ⟨hnext, hfaces⟩ := halted_worked h rfl
    exact ⟨hnext, rfl, fun seen consumer _ => hfaces seen consumer⟩
  | finished worker_eq =>
    have hmade : run.commits ++ Worker.commits .idle = run.commits := List.append_nil _
    obtain ⟨hnext, hfaces⟩ := h.place hmade (by simp)
    exact ⟨hnext, rfl, fun seen consumer _ => hfaces seen consumer⟩
  | otherRegistered =>
    refine ⟨h.settled (Queue.settled_subscribe h.shut 0).1, rfl, fun seen consumer _ hfaces => ?_⟩
    obtain ⟨hsettled, hunread⟩ := Queue.settled_subscribe h.shut consumer
    exact hfaces.settled h.shut hsettled (hunread hfaces.1)
  | otherPolled other ne =>
    refine ⟨h.settled (Queue.settled_next h.shut other other), rfl,
      fun seen consumer hconsumer hfaces => ?_⟩
    have hne : other ≠ consumer := by
      rintro rfl
      exact ne hconsumer
    exact hfaces.settled h.shut (Queue.settled_next h.shut other consumer)
      (Queue.unread_next_ne _ hne)
  | otherLeft other ne =>
    have hapart : other ≠ other + 1 := Nat.ne_of_lt (Nat.lt_succ_self _)
    refine ⟨h.settled (Queue.settled_unsubscribe h.shut hapart).1, rfl,
      fun seen consumer hconsumer hfaces => ?_⟩
    have hne : other ≠ consumer := by
      rintro rfl
      exact ne hconsumer
    obtain ⟨hsettled, hunread⟩ := Queue.settled_unsubscribe h.shut hne
    exact hfaces.settled h.shut hsettled hunread
  | elsewhere keeps =>
    exact ⟨⟨h.agrees.keeps keeps fun _ hplace => hplace, h.shut, h.resumable⟩, rfl,
      fun seen consumer _ hfaces => hfaces⟩

/-! ## Everything around a session -/

theorem commits_advance (worker : Worker) (topic : Topic) (env : Env) :
    worker.commits <+: (worker.advance topic env).1.commits := by
  cases worker with
  | idle => exact List.prefix_refl _
  | appending attempts results =>
    cases attempts with
    | nil => exact List.prefix_refl _
    | cons attempt rest =>
      show commitsOf results <+: commitsOf (results ++ _)
      rw [commitsOf_append]
      exact List.prefix_append _ _
  | publishing results batches =>
    cases batches with
    | nil => exact List.prefix_refl _
    | cons batch rest =>
      rcases hbatch : publishBatch topic.queue batch with ⟨progress, queue⟩
      simp only [Worker.advance, hbatch]
      cases progress <;> exact List.prefix_refl _
  | held results backlog =>
    rcases hbatch : topic.queue.resume backlog.publication with ⟨progress, queue⟩
    simp only [Worker.advance, hbatch]
    cases progress <;> exact List.prefix_refl _

theorem commits_happens (hstep : Happens folder run next) : run.commits <+: next.commits := by
  cases hstep with
  | submitted attempts idle =>
    rw [Run.commits, idle]
    exact List.prefix_refl _
  | worked =>
    exact (List.prefix_append_right_inj _).2 (commits_advance run.worker run.topic run.env)
  | finished worker_eq => exact List.prefix_append _ _
  | otherRegistered => exact List.prefix_refl _
  | otherPolled other ne => exact List.prefix_refl _
  | otherLeft other ne => exact List.prefix_refl _
  | elsewhere keeps => exact List.prefix_refl _

/-- **Nothing that happens around a session takes anything from its consumer.** -/
theorem happens_orderly (h : Orderly config folder run) (hstep : Happens folder run next) :
    Orderly config folder next ∧ next.phase = run.phase ∧
      ∀ seen consumer, run.phase.consumer? = some consumer → Faces run seen consumer →
        Faces next seen consumer := by
  cases h with
  | inOrder h =>
    obtain ⟨hnext, hphase, hextends⟩ := happens_inOrder h hstep
    refine ⟨.inOrder hnext, hphase, fun seen consumer hconsumer hfaces => ?_⟩
    obtain ⟨hthere, hcommits⟩ := (faces_iff_of_inOrder h).1 hfaces
    obtain ⟨hstays, more, hmore, hline⟩ := hextends consumer hconsumer hthere
    exact (faces_iff_of_inOrder hnext).2
      ⟨hstays, by rw [hmore, hcommits, hline, List.append_assoc]⟩
  | halted h =>
    obtain ⟨hnext, hphase, hfaces⟩ := happens_halted h hstep
    exact ⟨.halted hnext, hphase, hfaces⟩

/-- The queue is stopped. -/
theorem stopped_halted (h : Orderly config folder run) :
    Halted config folder { run with topic := { run.topic with queue := run.topic.queue.stop } } ∧
      ∀ seen consumer, Faces run seen consumer →
        Faces { run with topic := { run.topic with queue := run.topic.queue.stop } } seen
          consumer := by
  cases h with
  | halted h =>
    refine ⟨h.settled (Queue.settled_stop_again h.shut 0).1, fun seen consumer hfaces => ?_⟩
    obtain ⟨hsettled, hunread⟩ := Queue.settled_stop_again h.shut consumer
    exact hfaces.settled h.shut hsettled hunread
  | inOrder h =>
    have hshut := (Queue.settled_stop h.queue 0).1
    refine ⟨⟨h.agrees.of_partitions rfl rfl, hshut.shut, ?_⟩, fun seen consumer hfaces => ?_⟩
    · intro results backlog hheld
      have hready := h.ready
      rw [show run.worker = .held results backlog from hheld] at hready
      exact hshut.resumable _ hready.1
    · obtain ⟨hsettled, hunread⟩ := Queue.settled_stop h.queue consumer
      obtain ⟨hconsumer, hcommits⟩ := (faces_iff_of_inOrder h).1 hfaces
      refine faces_of_shut (run.worker.owed run.topic.queue consumer) hsettled.shut
        (hsettled.isConsumer hconsumer) ?_ ?_
      · rw [hunread]
        exact hcommits
      · rw [awaited_settled hsettled]
        exact awaited_prefix_owed _ _ _

/-- Consumers are to come to their end. -/
theorem disconnected_halted (hshut : run.topic.queue.Shut)
    (hnone : ∀ results backlog, run.worker ≠ .held results backlog)
    (hagrees : Agrees config after later.disk folder run.commits)
    (hqueue : after.queue = run.topic.queue.disconnect) :
    Halted config folder { run with topic := after, env := later } ∧
      ∀ seen consumer, Faces run seen consumer →
        Faces { run with topic := after, env := later } seen consumer := by
  have hafter : after.queue.Shut := by
    rw [hqueue]
    exact hshut.disconnect
  refine ⟨⟨hagrees, hafter, fun _ _ hheld => absurd hheld (hnone _ _)⟩,
    fun seen consumer hfaces => ?_⟩
  obtain ⟨rest, hcommits, -⟩ := hfaces.exists_rest hshut
  refine faces_of_shut rest hafter ?_ ?_ ?_
  · rw [hqueue]
    exact (Queue.isConsumer_disconnect _ _).2 hfaces.1
  · rw [hqueue, Queue.unread_disconnect]
    exact hcommits
  · rw [awaited_of_not_held _ _ hnone]
    exact List.nil_prefix

/-- The topic is shut down. -/
theorem shut_halted (h : Orderly config folder run) (hidle : run.worker = .idle) :
    Halted config folder
        { run with
          topic := (run.topic.shutDown run.env).1
          env := (run.topic.shutDown run.env).2 } ∧
      ∀ seen consumer, Faces run seen consumer →
        Faces
          { run with
            topic := (run.topic.shutDown run.env).1
            env := (run.topic.shutDown run.env).2 } seen consumer := by
  obtain ⟨hstopped, hfaces⟩ := stopped_halted h
  obtain ⟨hagrees, -⟩ := Topic.shutDown_agrees h.agrees rfl
  obtain ⟨hlast, hrest⟩ := disconnected_halted hstopped.shut
    (fun results backlog => by rw [hidle]; simp) hagrees rfl
  exact ⟨hlast, fun seen consumer hseen => hrest seen consumer (hfaces seen consumer hseen)⟩

/-! ## Sessions -/

/-- Somebody who registers has seen all there is. -/
theorem registered_faces (h : Orderly config folder run) (hidle : run.worker = .idle) :
    Orderly config folder
        { run with topic := { run.topic with queue := run.topic.queue.subscribe.2 } } ∧
      Faces { run with topic := { run.topic with queue := run.topic.queue.subscribe.2 } }
        run.commits run.topic.queue.subscribe.1 := by
  cases h with
  | inOrder h =>
    have hnext := inOrder_steady h (Queue.steady_subscribe h.queue 0).1
    obtain ⟨hconsumer, hunread⟩ := Queue.subscribe_new h.queue
    refine ⟨.inOrder hnext, (faces_iff_of_inOrder hnext).2 ⟨hconsumer, ?_⟩⟩
    show run.commits = run.commits ++ (run.topic.queue.subscribe.2.unread _ ++ run.worker.owed _ _)
    rw [hunread, hidle]
    exact (List.append_nil _).symm
  | halted h =>
    have hnext := h.settled (Queue.settled_subscribe h.shut 0).1
    obtain ⟨hconsumer, hunread⟩ := Queue.subscribe_shut h.shut
    refine ⟨.halted hnext, faces_of_shut [] hnext.shut hconsumer ?_ ?_⟩
    · simp only [hunread, List.append_nil]
      rfl
    · simp only [hidle]
      exact List.nil_prefix

/-- A poll gives the next commit of those in front of its consumer, or nothing. -/
theorem next_faces (h : Orderly config folder run) (hfaces : Faces run seen consumer)
    {poll : Queue.Poll RawCommit} (hnext : run.topic.queue.next consumer = (poll, last)) :
    Orderly config folder { run with topic := { run.topic with queue := last } } ∧
      (∀ commit, poll = .ready commit → (∃ rest, run.commits = seen ++ commit :: rest) ∧
        Faces { run with topic := { run.topic with queue := last } } (seen ++ [commit]) consumer) ∧
      ((∀ commit, poll ≠ .ready commit) →
        Faces { run with topic := { run.topic with queue := last } } seen consumer) := by
  cases h with
  | inOrder h =>
    have hsteady := Queue.steady_next h.queue consumer
    rw [hnext] at hsteady
    have hlast := inOrder_steady h hsteady
    have howed := owed_steady h.ready hsteady
    obtain ⟨hconsumer, hcommits⟩ := (faces_iff_of_inOrder h).1 hfaces
    have hstays := hsteady.isConsumer hconsumer
    refine ⟨.inOrder hlast, ?_, fun hnone => ?_⟩
    · rintro commit rfl
      rw [Run.line, Queue.unread_of_next_ready hnext, List.cons_append] at hcommits
      refine ⟨⟨_, hcommits⟩, (faces_iff_of_inOrder hlast).2 ⟨hstays, ?_⟩⟩
      show run.commits = (seen ++ [commit]) ++ (last.unread consumer ++ run.worker.owed last consumer)
      rw [howed, hcommits, List.append_assoc]
      rfl
    · refine (faces_iff_of_inOrder hlast).2 ⟨hstays, ?_⟩
      show run.commits = seen ++ (last.unread consumer ++ run.worker.owed last consumer)
      rw [howed, Queue.unread_of_next_nothing hnext hnone]
      exact hcommits
  | halted h =>
    have hsettled := Queue.settled_next h.shut consumer consumer
    rw [hnext] at hsettled
    refine ⟨.halted (h.settled hsettled), ?_, fun hnone => ?_⟩
    · rintro commit rfl
      obtain ⟨rest, hcommits, hrest⟩ := hfaces.exists_rest h.shut
      rw [Queue.unread_of_next_ready hnext, List.cons_append] at hcommits
      refine ⟨⟨_, hcommits⟩,
        faces_of_shut rest hsettled.shut (hsettled.isConsumer hfaces.1) ?_ ?_⟩
      · show run.commits = _
        rw [hcommits, List.append_assoc]
        rfl
      · rw [awaited_settled hsettled]
        exact hrest
    · exact hfaces.settled h.shut hsettled (Queue.unread_of_next_nothing hnext hnone)

/-! ## Opening again -/

/-- Writers take no name away. -/
theorem keeps_advance (h : Agrees config topic env.disk folder commits) (worker : Worker) :
    Keeps env.disk (worker.advance topic env).2.2.disk fun _ => False := by
  have hstays : Keeps env.disk env.disk fun _ => False := Keeps.refl h.sound h.reliable _
  cases worker with
  | idle => exact hstays
  | appending attempts results =>
    cases attempts with
    | nil => exact hstays
    | cons attempt rest =>
      obtain ⟨-, hkeeps, -⟩ := Topic.append_agrees h attempt rfl
      exact hkeeps.mono fun _ hnowhere => hnowhere.elim
  | publishing results batches => cases batches <;> exact hstays
  | held results backlog => exact hstays

theorem keeps_happens (h : Agrees config run.topic run.env.disk folder run.commits)
    (hstep : Happens folder run next) : Keeps run.env.disk next.env.disk fun _ => False := by
  have hstays : Keeps run.env.disk run.env.disk fun _ => False := Keeps.refl h.sound h.reliable _
  cases hstep with
  | worked => exact keeps_advance h run.worker
  | elsewhere keeps => exact keeps.mono fun _ hnowhere => hnowhere.elim
  | submitted attempts idle => exact hstays
  | finished worker_eq => exact hstays
  | otherRegistered => exact hstays
  | otherPolled other ne => exact hstays
  | otherLeft other ne => exact hstays

/-- **A topic that is opened again has the commits that it had.** -/
theorem Remains.agrees {leftover : UInt32 → Bytes} {remains disk : Disk}
    (h : Remains config folder root home commits leftover remains)
    (hhistory : IsHistory config commits) (hpath : folder.path = root.child home.name)
    (hvalid : settings.isValid = true) (hpartitions : settings.partitions = config.partitions)
    (hlimit : settings.maxEntryBytes = config.maxEntryBytes)
    (hrepairs : ∀ number, number < config.partitions → leftover number = [] ∨
      settings.repairTornTail = true ∧ settings.openFlags.contains .append = true)
    (hrun : Topic.recover settings root home.name remains = (.ok topic, disk)) :
    Agrees config topic disk folder commits ∧ topic.queue = .ofFanout settings.fanout ∧
      Keeps remains disk fun _ => False := by
  have hnumbers := partitionNumbers_congr hpartitions
  have hlt : ∀ number ∈ partitionNumbers settings, number < config.partitions := by
    intro number hnumber
    rw [hnumbers] at hnumber
    exact mem_partitionNumbers.1 hnumber
  have hstored : Stored remains home (partitionNumbers settings) fun number =>
      encodeAll (framesIn commits number) ++ leftover number :=
    .there h.entry fun number hnumber => h.stores number (hlt number hnumber)
  have hframes : ∀ number ∈ partitionNumbers settings, ∀ frame ∈ framesIn commits number,
      IsCommit settings.maxEntryBytes frame := by
    intro number _
    rw [hlimit]
    exact hhistory.isCommit_framesIn number
  obtain ⟨_, _, hagain, hrecovered⟩ := Topic.recover_cases h.follows h.sound h.reliable hstored
    hframes (fun number hnumber => by rw [hlimit]; exact h.isLeftover number (hlt number hnumber))
    fun number hnumber => hrepairs number (hlt number hnumber)
  obtain ⟨rfl, rfl⟩ := Prod.mk.inj (hrun.symm.trans hagain)
  obtain ⟨-, hmax, -, hqueue, directory, hentry, hholds, -⟩ := hrecovered.opened topic rfl
  -- the directory is the one that it was
  have hdirectory : directory = folder.directory := by
    rw [hrecovered.keeps.entryAt?_some _ _ h.entry] at hentry
    exact (Disk.Entry.directory.inj (Option.some.inj hentry)).symm
  have hfolder : folder = ⟨root.child home.name, directory⟩ := by
    rw [← hpath, hdirectory]
  rw [hnumbers] at hholds
  refine ⟨⟨hrecovered.keeps.sound, hrecovered.keeps.reliable, ?_, hmax.trans hlimit, hhistory, ?_⟩,
    hqueue, hrecovered.keeps.mono fun _ hnowhere => hnowhere.elim⟩
  · rw [← hlimit]
    exact Topic.le_maxFieldLength_of_isValid hvalid
  · rw [hfolder]
    exact hholds

/-- What is on the disk of a topic in service remains when everything stops. -/
theorem remains_of_agrees {disk : Disk} (h : Agrees config topic disk folder commits)
    (hfollows : disk.follow (.directory top) root.segments = .ok (.directory home.directory))
    (hentry : disk.entryAt? home = some (.directory folder.directory)) :
    Remains config folder root home commits (fun _ => []) disk where
  sound := h.sound
  reliable := h.reliable
  follows := hfollows
  entry := hentry
  stores number hnumber := by
    obtain ⟨p, -, rfl, hp⟩ := h.holds.exists_partition hnumber
    rw [List.append_nil]
    exact hp.stores
  isLeftover _ _ := .zeros 0

end CommitLog.Resuming
