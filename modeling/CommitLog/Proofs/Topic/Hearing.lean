import CommitLog.Proofs.Queue.Stored
import CommitLog.Proofs.Topic.Life

/-!
# What consumers can be given

The queue of a topic is filled by the units of work alone: consumers register, poll and leave, and
none of that brings anything into it. In a life in which nobody else touches the queue (`Observed`),
whatever is in it is a commit of the topic: `Observed.hears`.
-/

namespace CommitLog.Topic

open CommitLog.Disk (Place Keeps)
open CommitLog.Queue (ConsumerId)

variable {config : Config} {root : Path} {home : Place} {life next : Life} {topic after : Topic}
  {env later : Env} {past values front : List RawCommit} {actor : Actor Task Reply}
  {service : Service} {queue : Queue RawCommit}

/-- What a consumer does to a queue. -/
inductive Consumes (queue : Queue RawCommit) : Queue RawCommit → Prop where
  | registered : Consumes queue queue.subscribe.2
  | polled (consumer : ConsumerId) : Consumes queue (queue.next consumer).2
  | left (consumer : ConsumerId) : Consumes queue (queue.unsubscribe consumer)

/-- What can happen to a topic in service. -/
inductive Tends (service : Service) (env : Env) : Service → Env → Prop where
  | submitted {task : Task} (submission : IsSubmission (.run task)) :
      Tends service env (service.submit task).2 env
  | settled : Tends service env (service.settle env).1 (service.settle env).2
  | consumed {queue : Queue RawCommit} (consumes : Consumes service.topic.queue queue) :
      Tends service env (service.mapQueue fun _ => queue) env
  | queueClosed : Tends service env (service.closeQueue env).1 (service.closeQueue env).2
  | shut : Tends service env (service.shut env).1 (service.shut env).2

/-- What the life of a topic can come to when nobody but its consumers touches the queue. -/
inductive Observed (config : Config) (root : Path) (home : Place) : Life → Prop where
  | fresh {life : Life} (h : Fresh root home life) : Observed config root home life
  | tended {life : Life} {service after : Service} {env : Env} (h : Observed config root home life)
      (running : life.service = some service) (tends : Tends service life.env after env) :
      Observed config root home { life with service := some after, env }
  /-- The topic is opened or left, or something happens elsewhere. -/
  | step {life next : Life} (h : Observed config root home life)
      (hstep : Step config root home life next)
      (apart : life.service = none ∨ next.service = none ∨ next.service = life.service) :
      Observed config root home next

theorem Observed.reachable (h : Observed config root home life) :
    Reachable config root home life := by
  induction h with
  | fresh h => exact .fresh h
  | step _ hstep _ ih => exact ih.step hstep
  | tended _ running tends ih =>
    cases tends with
    | submitted submission => exact ih.step (.submitted running submission)
    | settled => exact ih.step (.settled running)
    | consumed consumes => exact ih.step (.queueChanged running _)
    | queueClosed => exact ih.step (.queueClosed running)
    | shut => exact ih.step (.shut running)

/-! ## Units of work -/

/-- A unit of work that waits offers nothing but these commits. -/
def Task.Offers (values : List RawCommit) : Task → Prop
  | .publish _ backlog =>
    (∀ commit ∈ backlog.publication.batch, commit ∈ values) ∧
      ∀ batch ∈ backlog.later, ∀ commit ∈ batch, commit ∈ values
  | _ => True

/-- The unit of a submission has nothing to offer yet. -/
theorem offers_of_isSubmission {task : Task} (h : IsSubmission (.run task)) :
    task.Offers values := by
  cases h <;> exact trivial

theorem publishBatch_among {batch : List RawCommit} {progress : Queue.Progress RawCommit}
    {last : Queue RawCommit} (h : queue.Among values) (hbatch : ∀ commit ∈ batch, commit ∈ values)
    (hrun : publishBatch queue batch = (progress, last)) :
    last.Among values ∧ progress.Among values := by
  unfold publishBatch at hrun
  split at hrun
  next =>
    obtain ⟨rfl, rfl⟩ := hrun
    exact ⟨h, trivial⟩
  next tx htx =>
    refine h.publish ?_ hrun
    rw [Queue.values_of_ofBatch htx]
    exact hbatch

theorem publishBatches_among (batches : List (List RawCommit)) :
    ∀ (topic : Topic) {backlog : Option Backlog} {after : Topic}
      {results : List (Except LogError RawOutcome)}, topic.queue.Among values →
      (∀ batch ∈ batches, ∀ commit ∈ batch, commit ∈ values) →
      publishBatches batches topic = (backlog, after) →
      after.queue.Among values ∧
        ∀ rest, published results backlog = .waiting rest → rest.Offers values := by
  induction batches with
  | nil =>
    intro topic backlog after results h _ hrun
    obtain ⟨rfl, rfl⟩ := hrun
    exact ⟨h, by simp [published]⟩
  | cons batch rest ih =>
    intro topic backlog after results h hbatches hrun
    have hrest : ∀ other ∈ rest, ∀ commit ∈ other, commit ∈ values :=
      fun other hother => hbatches other (List.mem_cons_of_mem _ hother)
    rcases hbatch : publishBatch topic.queue batch with ⟨progress, queue⟩
    obtain ⟨hqueue, hprogress⟩ :=
      publishBatch_among h (hbatches batch List.mem_cons_self) hbatch
    unfold publishBatches at hrun
    rw [hbatch] at hrun
    cases progress with
    | published => exact ih (Topic.wake { topic with queue }) hqueue hrest hrun
    | rejected refusal =>
      obtain ⟨rfl, rfl⟩ := hrun
      exact ⟨hqueue, by simp [published]⟩
    | waiting publication =>
      obtain ⟨rfl, rfl⟩ := hrun
      refine ⟨hqueue, fun waits hwaits => ?_⟩
      obtain rfl := Actor.Served.waiting.inj hwaits
      exact ⟨hprogress, hrest⟩

theorem resumePublishing_among {backlog : Backlog} {rest : Option Backlog}
    {results : List (Except LogError RawOutcome)} (h : topic.queue.Among values)
    (hbatch : ∀ commit ∈ backlog.publication.batch, commit ∈ values)
    (hlater : ∀ batch ∈ backlog.later, ∀ commit ∈ batch, commit ∈ values)
    (hrun : topic.resumePublishing backlog = (rest, after)) :
    after.queue.Among values ∧
      ∀ waits, published results rest = .waiting waits → waits.Offers values := by
  rcases hresume : topic.queue.resume backlog.publication with ⟨progress, queue⟩
  obtain ⟨hqueue, hprogress⟩ := h.resume hbatch hresume
  unfold resumePublishing at hrun
  rw [hresume] at hrun
  cases progress with
  | published =>
    exact publishBatches_among backlog.later (Topic.wake { topic with queue }) hqueue hlater hrun
  | rejected refusal =>
    obtain ⟨rfl, rfl⟩ := hrun
    exact ⟨hqueue, by simp [published]⟩
  | waiting publication =>
    obtain ⟨rfl, rfl⟩ := hrun
    refine ⟨hqueue, fun waits hwaits => ?_⟩
    obtain rfl := Actor.Served.waiting.inj hwaits
    exact ⟨hprogress, hlater⟩

theorem append_queue (topic : Topic) (attempt : RawAttempt) (env : Env) :
    (topic.append attempt env).2.1.queue = topic.queue := by
  unfold append
  dsimp only
  split
  next => rfl
  next => split <;> rfl

theorem appendAll_queue (attempts : List RawAttempt) : ∀ (topic : Topic) (env : Env),
    (appendAll attempts topic env).2.1.queue = topic.queue := by
  induction attempts with
  | nil => exact fun _ _ => rfl
  | cons attempt rest ih => exact fun topic env => (ih _ _).trans (append_queue topic attempt env)

theorem mem_of_mem_pieces {α : Type} (size : Nat) (items : List α) {piece : List α} {item : α}
    (hpiece : piece ∈ pieces size items) (hitem : item ∈ piece) : item ∈ items := by
  fun_induction pieces size items with
  | case1 => simp at hpiece
  | case2 first rest ih =>
    rcases List.mem_cons.1 hpiece with rfl | hpiece
    · exact (List.mem_cons.1 hitem).elim (fun h => by simp [h]) fun h =>
        List.mem_cons_of_mem _ (List.mem_of_mem_take h)
    · exact List.mem_cons_of_mem _ (List.mem_of_mem_drop (ih hpiece))

/-- **A unit of work brings nothing into the queue but commits that it has made.** -/
theorem perform_among {task : Task} {served : Actor.Served Task Reply}
    (h : topic.queue.Among (front ++ commitsOfTask task))
    (htask : task.Offers (front ++ commitsOfTask task))
    (hrun : perform task topic env = (served, after, later)) :
    after.queue.Among (front ++ commitsOfServed served) ∧
      ∀ rest, served = .waiting rest → rest.Offers (front ++ commitsOfServed served) := by
  cases task with
  | append attempts =>
    rcases hall : appendAll attempts topic env with ⟨results, moved, reached⟩
    rcases hpublish : moved.publish (commitsOf results) with ⟨backlog, last⟩
    simp only [perform, hall, hpublish] at hrun
    obtain ⟨rfl, rfl, rfl⟩ := hrun
    rw [commitsOfServed_published]
    have hqueue := appendAll_queue attempts topic env
    rw [hall] at hqueue
    refine publishBatches_among _ moved ?_ ?_ hpublish
    · rw [show moved.queue = topic.queue from hqueue]
      refine h.mono fun commit hcommit => ?_
      rw [show commitsOfTask (.append attempts) = [] from rfl, List.append_nil] at hcommit
      exact List.mem_append_left _ hcommit
    · intro batch hbatch commit hcommit
      exact List.mem_append_right _ (mem_of_mem_pieces _ _ hbatch hcommit)
  | publish results backlog =>
    rcases hresume : topic.resumePublishing backlog with ⟨rest, last⟩
    simp only [perform, hresume] at hrun
    obtain ⟨rfl, rfl, rfl⟩ := hrun
    rw [commitsOfServed_published]
    exact resumePublishing_among h htask.1 htask.2 hresume
  | tails =>
    obtain ⟨rfl, rfl, rfl⟩ := hrun
    exact ⟨h, by simp⟩
  | register =>
    obtain ⟨rfl, rfl, rfl⟩ := hrun
    exact ⟨h.subscribe, by simp⟩
  | shutDown =>
    obtain ⟨rfl, rfl, rfl⟩ := hrun
    exact ⟨h.close, by simp⟩

/-! ## The actor -/

/-- Nothing is in the queue, or on its way into it, but commits that the topic has made. -/
structure Hears (past : List RawCommit) (actor : Actor Task Reply) (topic : Topic) : Prop where
  waiting : ∀ entry ∈ actor.waiting, IsSubmission entry.2
  queue : topic.queue.Among
    (past ++ (answeredCommits actor.answers ++ servingCommits actor.serving))
  serving : ∀ ticket task, actor.serving = some (ticket, task) →
    task.Offers (past ++ (answeredCommits actor.answers ++ servingCommits actor.serving))

theorem hears_settleUnit {task : Task} {served : Actor.Served Task Reply} (ticket : Actor.Ticket)
    (hserving : actor.serving = none) (hwaiting : ∀ entry ∈ actor.waiting, IsSubmission entry.2)
    (h : topic.queue.Among (past ++ (answeredCommits actor.answers ++ commitsOfTask task)))
    (htask : task.Offers (past ++ (answeredCommits actor.answers ++ commitsOfTask task)))
    (hrun : perform task topic env = (served, after, later)) :
    Hears past (actor.settleUnit ticket served) after := by
  rw [← List.append_assoc] at h htask
  obtain ⟨hqueue, hrest⟩ := perform_among h htask hrun
  refine ⟨?_, ?_, ?_⟩
  · rw [waiting_settleUnit]
    exact hwaiting
  · rw [commits_settleUnit actor ticket served hserving, ← List.append_assoc]
    exact hqueue
  · intro held rest hheld
    rw [commits_settleUnit actor ticket served hserving, ← List.append_assoc]
    exact hrest rest (serving_settleUnit actor ticket served hserving hheld)

theorem resume_hears (h : Hears past actor topic) {next : Actor Task Reply}
    (hrun : actor.resume behaviour (topic, env) = (next, after, later)) :
    Hears past next after := by
  unfold Actor.resume at hrun
  cases hserving : actor.serving with
  | none =>
    simp only [hserving] at hrun
    obtain ⟨rfl, rfl, rfl⟩ := hrun
    exact h
  | some held =>
    obtain ⟨ticket, task⟩ := held
    rcases hperform : perform task topic env with ⟨served, moved, reached⟩
    simp only [hserving, behaviour, hperform] at hrun
    obtain ⟨rfl, rfl, rfl⟩ := hrun
    have hqueue := h.queue
    have htask := h.serving ticket task hserving
    rw [hserving] at hqueue htask
    have hidle : ({ actor with serving := none } : Actor Task Reply).serving = none := rfl
    exact hears_settleUnit ticket hidle h.waiting hqueue htask hperform

theorem begin_hears (h : Hears past actor topic) (hserving : actor.serving = none)
    (ticket : Actor.Ticket) {envelope : Actor.Envelope Task} (henvelope : IsSubmission envelope)
    {next : Actor Task Reply}
    (hrun : actor.begin behaviour ticket envelope (topic, env) = (next, after, later)) :
    Hears past next after := by
  cases envelope with
  | run task =>
    simp only [Actor.begin] at hrun
    split at hrun
    next =>
      obtain ⟨rfl, rfl, rfl⟩ := hrun
      have hsame : answeredCommits (actor.refuse ticket).answers
          = answeredCommits actor.answers := answeredCommits_error _ _ _
      refine ⟨h.waiting, ?_, ?_⟩
      · rw [hsame]
        exact h.queue
      · rw [hsame]
        exact h.serving
    next =>
      rcases hperform : perform task topic env with ⟨served, moved, reached⟩
      simp only [behaviour, hperform] at hrun
      obtain ⟨rfl, rfl, rfl⟩ := hrun
      have hnone : commitsOfTask task = [] := by cases henvelope <;> rfl
      have hqueue := h.queue
      rw [hserving] at hqueue
      refine hears_settleUnit ticket hserving h.waiting ?_ (offers_of_isSubmission henvelope)
        hperform
      rw [hnone]
      exact hqueue
  | close task =>
    cases henvelope
    obtain ⟨rfl, rfl, rfl⟩ := hrun
    have hsame : answeredCommits (actor.answer ticket (.ok .shutDown)).answers
        = answeredCommits actor.answers := answeredCommits_shutDown _ _
    refine ⟨h.waiting, ?_, fun held task hheld => ?_⟩
    · show Queue.Among (past ++ (answeredCommits (actor.answer ticket _).answers ++ _)) _
      rw [hsame]
      exact h.queue.close
    · rw [show actor.serving = some (held, task) from hheld] at hserving
      simp at hserving

theorem work_hears (pending : List (Actor.Ticket × Actor.Envelope Task)) :
    ∀ (actor : Actor Task Reply) (topic : Topic) (env : Env) {next : Actor Task Reply}
      {after : Topic} {later : Env},
      (∀ entry ∈ pending, IsSubmission entry.2) → Hears past actor topic →
      Actor.work behaviour pending actor (topic, env) = (next, after, later) →
      Hears past next after := by
  induction pending with
  | nil =>
    intro actor topic env next after later _ h hrun
    obtain ⟨rfl, rfl, rfl⟩ := hrun
    exact ⟨by simp, h.queue, h.serving⟩
  | cons entry rest ih =>
    intro actor topic env next after later hpending h hrun
    obtain ⟨ticket, envelope⟩ := entry
    unfold Actor.work at hrun
    split at hrun
    next =>
      obtain ⟨rfl, rfl, rfl⟩ := hrun
      exact ⟨hpending, h.queue, h.serving⟩
    next hidle =>
      have hserving : actor.serving = none := Option.not_isSome_iff_eq_none.1 hidle
      rcases hbegin : actor.begin behaviour ticket envelope (topic, env) with
        ⟨moved, middle, reached⟩
      simp only [hbegin] at hrun
      exact ih moved middle reached (fun x hx => hpending x (List.mem_cons_of_mem _ hx))
        (begin_hears h hserving ticket (hpending _ List.mem_cons_self) hbegin) hrun

theorem enqueue_hears (h : Hears past actor topic) {envelope : Actor.Envelope Task}
    (henvelope : IsSubmission envelope) : Hears past (actor.enqueue envelope).2 topic := by
  unfold Actor.enqueue
  split
  next =>
    have hsame := answeredCommits_error actor.answers actor.submitted (.closed actor.name)
    refine ⟨h.waiting, ?_, ?_⟩
    · simp only [Actor.refuse, Actor.answer, hsame]
      exact h.queue
    · simp only [Actor.refuse, Actor.answer, hsame]
      exact h.serving
  next =>
    refine ⟨fun entry hentry => ?_, h.queue, h.serving⟩
    rcases List.mem_append.1 hentry with hentry | hentry
    · exact h.waiting entry hentry
    · rw [List.mem_singleton.1 hentry]
      exact henvelope

theorem settle_hears (h : Hears past service.actor service.topic) (env : Env) :
    Hears past (service.settle env).1.actor (service.settle env).1.topic := by
  obtain ⟨moved, middle, reached, hresume, hwork⟩ := service.exists_settle env
  have hmoved := resume_hears h hresume
  exact work_hears moved.waiting moved middle reached hmoved.waiting hmoved hwork

theorem mapQueue_hears (h : Hears past service.actor service.topic)
    {change : Queue RawCommit → Queue RawCommit}
    (hchange : ∀ values, service.topic.queue.Among values →
      (change service.topic.queue).Among values) :
    Hears past (service.mapQueue change).actor (service.mapQueue change).topic :=
  ⟨h.waiting, hchange _ h.queue, h.serving⟩

theorem closeQueue_hears (h : Hears past service.actor service.topic) (env : Env) :
    Hears past (service.closeQueue env).1.actor (service.closeQueue env).1.topic := by
  have hstopped : Hears past (service.mapQueue Queue.stop).actor
      (service.mapQueue Queue.stop).topic := mapQueue_hears h fun _ hqueue => hqueue.stop
  rcases hresume : (service.mapQueue Queue.stop).actor.resume behaviour
    ((service.mapQueue Queue.stop).topic, env) with ⟨moved, middle, reached⟩
  have hmoved := resume_hears hstopped hresume
  simp only [Service.closeQueue, hresume]
  exact ⟨hmoved.waiting, hmoved.queue.disconnect, hmoved.serving⟩

/-- **Whatever happens to a topic in service, its queue holds commits of the topic.** -/
theorem tends_hears (h : Hears past service.actor service.topic) {after : Service} {later : Env}
    (htends : Tends service env after later) : Hears past after.actor after.topic := by
  cases htends with
  | submitted submission => exact enqueue_hears h submission
  | settled => exact settle_hears h env
  | queueClosed => exact closeQueue_hears h env
  | shut =>
    have hlast := enqueue_hears h .shutDown
    exact settle_hears ⟨hlast.waiting, hlast.queue, hlast.serving⟩ env
  | consumed consumes =>
    refine mapQueue_hears h fun values hqueue => ?_
    cases consumes with
    | registered => exact hqueue.subscribe
    | polled consumer => exact hqueue.next consumer
    | left consumer => exact hqueue.unsubscribe consumer

/-! ## The whole life -/

/-- Only the end of a service adds to the commits of the past. -/
theorem Step.past_eq (h : Step config root home life next) (hservice : next.service = some service) :
    next.past = life.past := by
  cases h with
  | left => simp at hservice
  | _ => rfl

/-- A topic that comes into service was opened: its queue is empty, and its actor has nothing to
do. -/
theorem Step.exists_opened (h : Step config root home life next)
    (hlife : Consistent config root home life) (hidle : life.service = none)
    (hservice : next.service = some service) :
    ∃ topic depth fanout, service = .start topic depth ∧ topic.queue = .ofFanout fanout := by
  cases h with
  | @opened settings topic disk idle valid partitions_eq limit_eq run =>
    obtain ⟨-, -, -, -, hopened⟩ := (hlife.rests idle).recover hlife.sound hlife.reliable
      hlife.follows valid partitions_eq limit_eq run
    obtain ⟨-, -, -, hqueue⟩ := hopened _ rfl
    exact ⟨topic, _, _, (Option.some.inj hservice).symm, hqueue⟩
  | notOpened => simp [hidle] at hservice
  | elsewhere => simp [hidle] at hservice
  | left => simp at hservice
  | submitted running => simp [hidle] at running
  | settled running => simp [hidle] at running
  | queueChanged running => simp [hidle] at running
  | queueClosed running => simp [hidle] at running
  | shut running => simp [hidle] at running

theorem Step.hears_opened (h : Step config root home life next)
    (hlife : Consistent config root home life) (hidle : life.service = none)
    (hservice : next.service = some service) (past : List RawCommit) :
    Hears past service.actor service.topic := by
  obtain ⟨topic, depth, fanout, rfl, hqueue⟩ := h.exists_opened hlife hidle hservice
  refine ⟨by simp [Service.start, Actor.start], ?_, by simp [Service.start, Actor.start]⟩
  show topic.queue.Among _
  rw [hqueue]
  exact Queue.among_ofFanout _ _

theorem Observed.hears_service (h : Observed config root home life)
    (hservice : life.service = some service) : Hears life.past service.actor service.topic := by
  induction h generalizing service with
  | fresh h => simp [h.service] at hservice
  | tended _ running tends ih =>
    obtain rfl := Option.some.inj hservice
    exact tends_hears (ih running) tends
  | step hobserved hstep apart ih =>
    rcases apart with hidle | hnone | hsame
    · exact hstep.hears_opened hobserved.reachable.consistent hidle hservice _
    · simp [hnone] at hservice
    · rw [hstep.past_eq hservice]
      exact ih (hsame.symm.trans hservice)

/-- **Whatever is in the queue of a topic is a commit of the topic.** -/
theorem Observed.hears (h : Observed config root home life)
    (hservice : life.service = some service) : service.topic.queue.Among life.commits := by
  have hqueue := (h.hears_service hservice).queue
  have hcommits : life.commits = life.past ++ service.commits := by
    unfold Life.commits
    rw [hservice, Option.map_some, Option.getD_some]
  rw [hcommits]
  exact hqueue

end CommitLog.Topic
