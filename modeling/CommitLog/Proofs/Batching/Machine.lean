import CommitLog.Proofs.Batching.Alike
import CommitLog.Proofs.Handover.Whole
import CommitLog.Proofs.Handover.Writers
import CommitLog.Proofs.Queue.Draining

/-!
# Units of attempts, and consumers that listen

A writer sends units of attempts to a topic, each when the one before has been answered. While the
worker of the topic appends and publishes, live consumers poll the queue, and the rest of the world
goes on. `Step` takes this apart into the smallest pieces, as a run of a subscription does
(`Handover.Happens`), and keeps track of what the writer was answered and of what each consumer was
given.

What is invariant: a queue that consumers go on reading can be drained (`Fluent`), and what a
consumer was given, with what is on its way to it, is what was on its way to it at the beginning,
followed by all commits since (`Hears`).
-/

namespace CommitLog.Batching

open CommitLog.Disk (Keeps Place)
open CommitLog.Handover (Extends Happens InOrder Occurs Phase Run Worker)
open CommitLog.Queue (ConsumerId Minds Poll)
open CommitLog.Topic (Agrees Backlog Folder commitsOf pieces publishBatch)

/-- A topic with a writer and its live consumers. -/
structure Hall where
  topic : Topic
  env : Env
  worker : Worker := .idle
  /-- The commits from before the writer came. -/
  before : List RawCommit
  /-- The units that are still to be sent. -/
  units : List (List RawAttempt)
  /-- The results of the units that have been answered. -/
  answers : List (Except LogError RawOutcome) := []
  /-- What every consumer has been given since. -/
  heard : ConsumerId → List RawCommit := fun _ => []

namespace Hall

/-- A topic to which a writer comes with units of attempts. -/
def ofRun (run : Run Unit) (units : List (List RawAttempt)) : Hall where
  topic := run.topic
  env := run.env
  worker := run.worker
  before := run.past
  units

/-- The topic as a subscription that has come to a phase finds it. -/
def seen (hall : Hall) (phase : Phase Unit) : Run Unit where
  topic := hall.topic
  env := hall.env
  worker := hall.worker
  past := hall.before ++ commitsOf hall.answers
  phase

/-- The topic as nobody in particular finds it. -/
def run (hall : Hall) : Run Unit := hall.seen (.unregistered ())

/-- Everything is answered. -/
structure Done (hall : Hall) : Prop where
  worker_eq : hall.worker = .idle
  units_eq : hall.units = []

/-- What the worker does next: it takes up a unit, goes on with it, or answers it. -/
def work (hall : Hall) : Hall :=
  match hall.worker with
  | .idle =>
    match hall.units with
    | [] => hall
    | unit :: later => { hall with worker := .appending unit [], units := later }
  | .publishing results [] => { hall with worker := .idle, answers := hall.answers ++ results }
  | worker =>
    { hall with
      worker := (worker.advance hall.topic hall.env).1
      topic := (worker.advance hall.topic hall.env).2.1
      env := (worker.advance hall.topic hall.env).2.2 }

/-- What consumers have been given when one of them has polled. -/
def hear (heard : ConsumerId → List RawCommit) (consumer : ConsumerId) :
    Poll RawCommit → ConsumerId → List RawCommit
  | .ready commit => Function.update heard consumer (heard consumer ++ [commit])
  | _ => heard

/-- A consumer polls. -/
def poll (hall : Hall) (consumer : ConsumerId) : Hall :=
  { hall with
    topic := { hall.topic with queue := (hall.topic.queue.next consumer).2 }
    heard := hear hall.heard consumer (hall.topic.queue.next consumer).1 }

end Hall

/-- The smallest piece of what happens. -/
inductive Step (folder : Folder) (hall : Hall) : Hall → Prop where
  | worked : Step folder hall hall.work
  | polled (consumer : ConsumerId) : Step folder hall (hall.poll consumer)
  | elsewhere {env : Env}
      (keeps : Keeps hall.env.disk env.disk (Place.directory · = folder.directory)) :
      Step folder hall { hall with env }

/-- One point is followed by another. -/
abbrev Leads (folder : Folder) : Hall → Hall → Prop := Relation.ReflTransGen (Step folder)

variable {σ : Type} {config : Config} {folder : Folder} {start hall next : Hall} {run later : Run σ}
  {topic after : Topic} {env reached : Env} {worker moved : Worker} {consumer : ConsumerId}
  {phase : Phase Unit}

/-! ## Steps of the worker -/

/-- What a worker comes to when it goes one step further. -/
inductive Advanced (topic : Topic) (env : Env) : Worker → Worker → Topic → Env → Prop where
  | idle : Advanced topic env .idle .idle topic env
  | appended {attempt : RawAttempt} {later : List RawAttempt}
      {results : List (Except LogError RawOutcome)} {result : Except LogError RawOutcome}
      {after : Topic} {reached : Env} (append_eq : topic.append attempt env = (result, after, reached)) :
      Advanced topic env (.appending (attempt :: later) results)
        (.appending later (results ++ [result])) after reached
  | cut {results : List (Except LogError RawOutcome)} :
      Advanced topic env (.appending [] results)
        (.publishing results
          (pieces (topic.queue.capacity?.getD (commitsOf results).length) (commitsOf results)))
        topic env
  | handed {results : List (Except LogError RawOutcome)} {batch : List RawCommit}
      {later : List (List RawCommit)} {progress : Queue.Progress RawCommit} {queue : Queue RawCommit}
      {moved : Worker} {after : Topic} (publish_eq : publishBatch topic.queue batch = (progress, queue))
      (given : Worker.afterBatch results later topic (progress, queue) = (moved, after)) :
      Advanced topic env (.publishing results (batch :: later)) moved after env
  | resumed {results : List (Except LogError RawOutcome)} {backlog : Backlog}
      {progress : Queue.Progress RawCommit} {queue : Queue RawCommit} {moved : Worker} {after : Topic}
      (resume_eq : topic.queue.resume backlog.publication = (progress, queue))
      (given : Worker.afterBatch results backlog.later topic (progress, queue) = (moved, after)) :
      Advanced topic env (.held results backlog) moved after env
  | through {results : List (Except LogError RawOutcome)} :
      Advanced topic env (.publishing results []) (.publishing results []) topic env

theorem advance_cases (h : worker.advance topic env = (moved, after, reached)) :
    Advanced topic env worker moved after reached := by
  cases worker with
  | idle =>
    obtain ⟨rfl, rfl, rfl⟩ := h
    exact .idle
  | appending attempts results =>
    cases attempts with
    | nil =>
      obtain ⟨rfl, rfl, rfl⟩ := h
      exact .cut
    | cons attempt later =>
      rcases hrun : topic.append attempt env with ⟨result, last, ended⟩
      simp only [Worker.advance, hrun] at h
      obtain ⟨rfl, rfl, rfl⟩ := h
      exact .appended hrun
  | publishing results batches =>
    cases batches with
    | nil =>
      obtain ⟨rfl, rfl, rfl⟩ := h
      exact .through
    | cons batch later =>
      rcases hbatch : publishBatch topic.queue batch with ⟨progress, queue⟩
      rcases hgiven : Worker.afterBatch results later topic (progress, queue) with ⟨next, last⟩
      simp only [Worker.advance, hbatch, hgiven] at h
      obtain ⟨rfl, rfl, rfl⟩ := h
      exact .handed hbatch hgiven
  | held results backlog =>
    rcases hbatch : topic.queue.resume backlog.publication with ⟨progress, queue⟩
    rcases hgiven : Worker.afterBatch results backlog.later topic (progress, queue) with
      ⟨next, last⟩
    simp only [Worker.advance, hbatch, hgiven] at h
    obtain ⟨rfl, rfl, rfl⟩ := h
    exact .resumed hbatch hgiven

/-- What there is for the worker to do. -/
inductive Worked (hall : Hall) : Hall → Prop where
  | done (h : hall.Done) : Worked hall hall
  | sent {unit : List RawAttempt} {later : List (List RawAttempt)} (idle : hall.worker = .idle)
      (units_eq : hall.units = unit :: later) :
      Worked hall { hall with worker := .appending unit [], units := later }
  | answered {results : List (Except LogError RawOutcome)}
      (worker_eq : hall.worker = .publishing results []) :
      Worked hall { hall with worker := .idle, answers := hall.answers ++ results }
  | advanced {moved : Worker} {after : Topic} {reached : Env} (busy : hall.worker ≠ .idle)
      (unanswered : ∀ results, hall.worker ≠ .publishing results [])
      (moves : hall.worker.advance hall.topic hall.env = (moved, after, reached)) :
      Worked hall { hall with worker := moved, topic := after, env := reached }

theorem work_cases (hall : Hall) : Worked hall hall.work := by
  unfold Hall.work
  split
  next hidle =>
    split
    next hunits => exact .done ⟨hidle, hunits⟩
    next hunits => exact .sent hidle hunits
  next hanswered => exact .answered hanswered
  next hbusy hunanswered => exact .advanced hbusy hunanswered rfl

/-- What the worker does is among what can happen around a subscription. -/
theorem happens_of_worked (h : Worked hall next) (phase : Phase Unit) :
    next = hall ∨ Happens folder (hall.seen phase) (next.seen phase) := by
  cases h with
  | done => exact Or.inl rfl
  | @sent unit later idle units_eq =>
    have hstep : Happens folder (hall.seen phase) _ := .submitted unit idle
    exact Or.inr hstep
  | @answered results worker_eq =>
    have hstep : Happens folder (hall.seen phase) _ := .finished worker_eq
    have hcommits : (hall.seen phase).commits
        = hall.before ++ commitsOf (hall.answers ++ results) := by
      rw [Handover.commitsOf_append, ← List.append_assoc, Run.commits,
        show (hall.seen phase).worker = _ from worker_eq]
      rfl
    rw [hcommits] at hstep
    exact Or.inr hstep
  | advanced busy unanswered moves =>
    have hstep : Happens folder (hall.seen phase) _ := .worked
    rw [show (hall.seen phase).worker.advance (hall.seen phase).topic (hall.seen phase).env = _
      from moves] at hstep
    exact Or.inr hstep

/-! ## Queues that can be drained -/

/-- The queue can be drained, and a batch that waits is one that it takes. -/
structure Fluent (run : Run σ) : Prop where
  drainable : run.topic.queue.Drainable
  held : ∀ {results : List (Except LogError RawOutcome)} {backlog : Backlog},
    run.worker = .held results backlog →
      backlog.publication.batch ≠ [] ∧ run.topic.queue.Takes backlog.publication.batch.length

/-- A batch has been given to the queue, which can be drained as before. -/
theorem fluent_afterBatch {results : List (Except LogError RawOutcome)} {batch : List RawCommit}
    {rest : List (List RawCommit)} {progress : Queue.Progress RawCommit} {last : Queue RawCommit}
    {owed : ConsumerId → List RawCommit} (h : last.Drainable)
    (hminds : run.topic.queue.Minds last) (hbatch : batch ≠ [])
    (htakes : run.topic.queue.Takes batch.length)
    (hhanded : run.topic.queue.Handed owed progress last)
    (hwaiting : ∀ publication, progress = .waiting publication → publication.batch = batch)
    (hmoved : Worker.afterBatch results rest run.topic (progress, last) = (moved, after)) :
    Fluent { run with worker := moved, topic := after } ∧ run.topic.queue.Minds after.queue := by
  cases hhanded with
  | published idle hands =>
    obtain ⟨rfl, rfl⟩ := hmoved
    exact ⟨⟨h, fun hheld => by cases hheld⟩, hminds⟩
  | @waiting publication _ resumable hands =>
    obtain ⟨rfl, rfl⟩ := hmoved
    refine ⟨⟨h, fun hheld => ?_⟩, hminds⟩
    obtain ⟨-, rfl⟩ := Worker.held.inj hheld
    rw [hwaiting publication rfl]
    exact ⟨hbatch, htakes.steady hands.capacity?_eq⟩

section Fluent

variable (h : InOrder config folder run) (hfluent : Fluent run)

include h hfluent

theorem fluent_publishing {results : List (Except LogError RawOutcome)} {batch : List RawCommit}
    {rest : List (List RawCommit)} {progress : Queue.Progress RawCommit} {last : Queue RawCommit}
    (hworker : run.worker = .publishing results (batch :: rest))
    (hbatch : publishBatch run.topic.queue batch = (progress, last))
    (hgiven : Worker.afterBatch results rest run.topic (progress, last) = (moved, after)) :
    Fluent { run with worker := moved, topic := after } ∧ run.topic.queue.Minds after.queue := by
  have hready := h.ready
  rw [hworker] at hready
  obtain ⟨hidle, hfit⟩ := hready
  obtain ⟨hne, htakes⟩ := hfit batch List.mem_cons_self
  have hrun : run.topic.queue.publish batch = (progress, last) := by
    rw [← hbatch, publishBatch, Queue.ofBatch_of_takes h.queue htakes]
    rfl
  have hdrainable := hfluent.drainable.publish hne
  have hminds := Queue.minds_publish hfluent.drainable.tidy batch
  rw [hrun] at hdrainable hminds
  exact fluent_afterBatch hdrainable hminds hne htakes
    (Queue.publish_handed h.queue hidle hne htakes hrun)
    (fun publication hwaiting => Queue.batch_of_publish (hwaiting ▸ hrun)) hgiven

theorem fluent_held {results : List (Except LogError RawOutcome)} {backlog : Backlog}
    {progress : Queue.Progress RawCommit} {last : Queue RawCommit}
    (hworker : run.worker = .held results backlog)
    (hbatch : run.topic.queue.resume backlog.publication = (progress, last))
    (hgiven : Worker.afterBatch results backlog.later run.topic (progress, last)
      = (moved, after)) :
    Fluent { run with worker := moved, topic := after } ∧ run.topic.queue.Minds after.queue := by
  have hready := h.ready
  obtain ⟨hne, htakes⟩ := hfluent.held hworker
  rw [hworker] at hready
  have hdrainable := hfluent.drainable.resume hne
  have hminds := Queue.minds_resume hfluent.drainable.tidy backlog.publication
  rw [hbatch] at hdrainable hminds
  exact fluent_afterBatch hdrainable hminds hne htakes
    (Queue.resume_handed h.queue hready.1 hbatch)
    (fun publication hwaiting => Queue.batch_of_resume (hwaiting ▸ hbatch)) hgiven

/-- Whatever the worker does, the queue can be drained, and nobody has come to it. -/
theorem fluent_worked (hmoved : run.worker.advance run.topic run.env = (moved, after, reached)) :
    Fluent { run with worker := moved, topic := after, env := reached } ∧
      run.topic.queue.Minds after.queue := by
  have hadvanced := advance_cases hmoved
  have hself := Queue.minds_self hfluent.drainable.tidy
  -- where no batch is given to the queue, it stays as it is
  generalize hworker : run.worker = worker at hadvanced
  cases hadvanced with
  | idle => exact ⟨⟨hfluent.drainable, fun hheld => by cases hheld⟩, hself⟩
  | appended append_eq =>
    obtain ⟨-, -, honly⟩ := Topic.append_agrees h.agrees _ append_eq
    have hqueue : after.queue = run.topic.queue := by rw [honly]
    rw [hqueue]
    refine ⟨⟨?_, fun hheld => by cases hheld⟩, hself⟩
    show after.queue.Drainable
    rw [hqueue]
    exact hfluent.drainable
  | cut => exact ⟨⟨hfluent.drainable, fun hheld => by cases hheld⟩, hself⟩
  | handed publish_eq given => exact fluent_publishing h hfluent hworker publish_eq given
  | resumed resume_eq given => exact fluent_held h hfluent hworker resume_eq given
  | through => exact ⟨⟨hfluent.drainable, fun hheld => by cases hheld⟩, hself⟩

/-- **Whatever happens around a subscription, the queue can be drained.** -/
theorem fluent_happens (hstep : Happens folder run later) : Fluent later := by
  cases hstep with
  | submitted attempts idle => exact ⟨hfluent.drainable, fun hheld => by cases hheld⟩
  | worked => exact (fluent_worked h hfluent rfl).1
  | finished worker_eq => exact ⟨hfluent.drainable, fun hheld => by cases hheld⟩
  | otherRegistered =>
    refine ⟨hfluent.drainable.subscribe, fun hheld => ?_⟩
    obtain ⟨hbatch, htakes⟩ := hfluent.held hheld
    exact ⟨hbatch, htakes.steady (Queue.steady_subscribe h.queue 0).1.capacity?_eq⟩
  | otherPolled other ne =>
    refine ⟨hfluent.drainable.next other, fun hheld => ?_⟩
    obtain ⟨hbatch, htakes⟩ := hfluent.held hheld
    exact ⟨hbatch, htakes.steady (Queue.steady_next h.queue other).capacity?_eq⟩
  | otherLeft other ne =>
    refine ⟨hfluent.drainable.unsubscribe other, fun hheld => ?_⟩
    obtain ⟨hbatch, htakes⟩ := hfluent.held hheld
    have hapart : other ≠ other + 1 := Nat.ne_of_lt (Nat.lt_succ_self _)
    exact ⟨hbatch, htakes.steady (Queue.steady_unsubscribe h.queue hapart).1.capacity?_eq⟩
  | elsewhere keeps => exact ⟨hfluent.drainable, fun hheld => hfluent.held hheld⟩

end Fluent

/-! ## Points of a run -/

/-- Everything is in order. -/
structure Orderly (config : Config) (folder : Folder) (hall : Hall) : Prop where
  inOrder : InOrder config folder hall.run
  fluent : Fluent hall.run

theorem Orderly.seen (h : Orderly config folder hall) (phase : Phase Unit) :
    InOrder config folder (hall.seen phase) := ⟨h.inOrder.agrees, h.inOrder.queue, h.inOrder.ready⟩

theorem happens_of_step (h : Step folder hall next) :
    next = hall ∨ Happens folder hall.run next.run := by
  cases h with
  | worked => exact happens_of_worked (work_cases hall) (.unregistered ())
  | polled consumer => exact Or.inr (.otherPolled consumer (by rintro ⟨⟩))
  | elsewhere keeps => exact Or.inr (.elsewhere keeps)

/-- **Whatever happens, everything stays in order.** -/
theorem Orderly.step (h : Orderly config folder hall) (hstep : Step folder hall next) :
    Orderly config folder next := by
  rcases happens_of_step hstep with rfl | hhappens
  · exact h
  · exact ⟨(Handover.happens_inOrder h.inOrder hhappens).1,
      fluent_happens h.inOrder h.fluent hhappens⟩

theorem Orderly.leads (h : Orderly config folder hall) (hleads : Leads folder hall next) :
    Orderly config folder next := by
  induction hleads with
  | refl => exact h
  | tail _ hstep ih => exact ih.step hstep

/-- The commits from before the writer came stay what they are. -/
theorem before_of_step (h : Step folder hall next) : next.before = hall.before := by
  cases h with
  | worked =>
    have hworked := work_cases hall
    generalize hall.work = next at hworked
    cases hworked <;> rfl
  | polled consumer => rfl
  | elsewhere keeps => rfl

theorem before_of_leads (h : Leads folder hall next) : next.before = hall.before := by
  induction h with
  | refl => rfl
  | tail _ hstep ih => rw [before_of_step hstep, ih]

theorem isConsumer_of_worked (h : Orderly config folder hall) (hworked : Worked hall next)
    (hconsumer : next.topic.queue.IsConsumer consumer) :
    hall.topic.queue.IsConsumer consumer := by
  cases hworked with
  | done => exact hconsumer
  | sent idle units_eq => exact hconsumer
  | answered worker_eq => exact hconsumer
  | advanced busy unanswered moves =>
    exact (fluent_worked h.inOrder h.fluent moves).2.isConsumer consumer hconsumer

/-- Nobody comes while the writer is there. -/
theorem isConsumer_of_step (h : Orderly config folder hall) (hstep : Step folder hall next)
    (hconsumer : next.topic.queue.IsConsumer consumer) :
    hall.topic.queue.IsConsumer consumer := by
  cases hstep with
  | worked => exact isConsumer_of_worked h (work_cases hall) hconsumer
  | polled other =>
    exact (Queue.minds_next h.fluent.drainable.tidy other).isConsumer consumer hconsumer
  | elsewhere keeps => exact hconsumer

/-! ## What consumers are given -/

/-- A consumer is still there. What it was given, with what is on its way to it, is what it was and
all commits since. -/
structure Hears (start hall : Hall) (consumer : ConsumerId) : Prop where
  isConsumer : hall.topic.queue.IsConsumer consumer
  received : ∃ more, hall.run.commits = start.run.commits ++ more ∧
    hall.heard consumer ++ hall.run.line consumer
      = start.heard consumer ++ start.run.line consumer ++ more

theorem Hears.refl (h : hall.topic.queue.IsConsumer consumer) : Hears hall hall consumer where
  isConsumer := h
  received := ⟨[], by rw [List.append_nil], by rw [List.append_nil]⟩

theorem Hears.trans (h : Hears start hall consumer) (hnext : Hears hall next consumer) :
    Hears start next consumer where
  isConsumer := hnext.isConsumer
  received := by
    obtain ⟨more, hcommits, hline⟩ := h.received
    obtain ⟨others, hcommits', hline'⟩ := hnext.received
    refine ⟨more ++ others, ?_, ?_⟩
    · rw [hcommits', hcommits, List.append_assoc]
    · rw [hline', hline, List.append_assoc]

/-- What happens around a subscription is no concern of its consumer. -/
theorem hears_of_happens (h : Orderly config folder hall)
    (hhappens : Happens folder (hall.seen (.registered ⟨"", consumer, .empty⟩ ()))
      (next.seen (.registered ⟨"", consumer, .empty⟩ ())))
    (hheard : next.heard consumer = hall.heard consumer)
    (hconsumer : hall.topic.queue.IsConsumer consumer) : Hears hall next consumer := by
  have hextends := (Handover.happens_inOrder (h.seen _) hhappens).2.2 consumer rfl
  obtain ⟨hthere, more, hcommits, hline⟩ := hextends hconsumer
  refine ⟨hthere, more, hcommits, ?_⟩
  rw [hheard, List.append_assoc]
  exact congrArg _ hline

theorem heard_poll_ne (hall : Hall) {other : ConsumerId} (hne : other ≠ consumer) :
    (hall.poll other).heard consumer = hall.heard consumer := by
  cases hpoll : (hall.topic.queue.next other).1 with
  | ready commit =>
    simp only [Hall.poll, hpoll, Hall.hear]
    exact Function.update_of_ne hne.symm _ _
  | empty => simp only [Hall.poll, hpoll, Hall.hear]
  | closed => simp only [Hall.poll, hpoll, Hall.hear]

theorem heard_of_worked (h : Worked hall next) : next.heard = hall.heard := by
  cases h <;> rfl

/-- A consumer that polls is given the first of what is on its way to it. -/
theorem hears_poll (h : Orderly config folder hall)
    (hconsumer : hall.topic.queue.IsConsumer consumer) :
    Hears hall (hall.poll consumer) consumer := by
  have hsteady := Queue.steady_next h.inOrder.queue consumer
  have howed : hall.worker.owed (hall.topic.queue.next consumer).2 consumer
      = hall.worker.owed hall.topic.queue consumer := Handover.owed_steady h.inOrder.ready hsteady
  refine ⟨hsteady.isConsumer hconsumer, [], by rw [List.append_nil]; rfl, ?_⟩
  rw [List.append_nil]
  show (hall.poll consumer).heard consumer ++ ((hall.topic.queue.next consumer).2.unread consumer
    ++ hall.worker.owed (hall.topic.queue.next consumer).2 consumer)
      = hall.heard consumer ++ (hall.topic.queue.unread consumer
        ++ hall.worker.owed hall.topic.queue consumer)
  rw [howed]
  rcases Queue.next_cases h.inOrder.queue hconsumer with ⟨value, after, hnext, hunread⟩ | ⟨hnext, -⟩
  · have hnext' : hall.topic.queue.next consumer = (.ready value, after) := hnext
    have hunread' : hall.topic.queue.unread consumer = value :: after.unread consumer := hunread
    simp only [Hall.poll, hnext', Hall.hear, Function.update_self, hunread', List.append_assoc,
      List.cons_append, List.nil_append]
  · have hnext' : hall.topic.queue.next consumer = (.empty, hall.topic.queue) := hnext
    simp only [Hall.poll, hnext', Hall.hear]

/-- **Whatever happens, a consumer is given what is on its way to it**, in order and once. -/
theorem hears_step (h : Orderly config folder hall) (hstep : Step folder hall next)
    (hconsumer : hall.topic.queue.IsConsumer consumer) : Hears hall next consumer := by
  cases hstep with
  | worked =>
    have hworked := work_cases hall
    rcases happens_of_worked hworked (.registered ⟨"", consumer, .empty⟩ ()) with hsame | hhappens
    · rw [hsame]
      exact .refl hconsumer
    · exact hears_of_happens h hhappens (by rw [heard_of_worked hworked]) hconsumer
  | polled other =>
    by_cases hsame : other = consumer
    · subst hsame
      exact hears_poll h hconsumer
    · refine hears_of_happens h (.otherPolled other ?_) (heard_poll_ne hall hsame) hconsumer
      exact fun hother => hsame (Option.some.inj hother).symm
  | elsewhere keeps => exact hears_of_happens h (.elsewhere keeps) rfl hconsumer

theorem hears_leads (h : Orderly config folder hall) (hleads : Leads folder hall next)
    (hconsumer : hall.topic.queue.IsConsumer consumer) : Hears hall next consumer := by
  induction hleads with
  | refl => exact .refl hconsumer
  | tail hmiddle hstep ih => exact ih.trans (hears_step (h.leads hmiddle) hstep ih.isConsumer)

end CommitLog.Batching
