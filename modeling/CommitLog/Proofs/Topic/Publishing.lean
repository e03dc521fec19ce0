import CommitLog.Proofs.Handover.Whole
import CommitLog.Proofs.Handover.Writers
import CommitLog.Proofs.Queue.Closing
import CommitLog.Proofs.Queue.Shut
import CommitLog.Proofs.Topic.Hearing

/-!
# What the actor publishes

A commit that the actor makes goes to live consumers, and nothing else does. While the queue of a
topic takes batches, the commits of whatever the actor does go to the end of what every consumer has
in front of it, in the order in which they were made (`settle_publishes`). What a consumer has in
front of it is in the queue or, behind that, in a unit of work that waits for room (`Service.line`).

The actor can always go on with what it has begun, and closes the queue only when nothing more is to
be begun (`Keen`). So it never takes a commit away from a consumer.
-/

namespace CommitLog.Topic

open CommitLog.Disk (Place)
open CommitLog.Handover (Advances Extends InOrder Run Worker inOrder_worked)
open CommitLog.Queue (ConsumerId)

variable {config : Config} {root : Path} {home : Place} {life next : Life} {topic after : Topic}
  {env later : Env} {folder : Folder} {past front : List RawCommit} {task : Task}
  {served : Actor.Served Task Reply} {results : List (Except LogError RawOutcome)}
  {actor : Actor Task Reply} {service last : Service} {consumer : ConsumerId}

/-! ## Units of work -/

/-- Where the worker is when it takes up a unit of work, or goes on with it. -/
def Task.worker : Task → Worker
  | .append attempts => .appending attempts []
  | .publish results backlog => .held results backlog
  | _ => .idle

/-- Where the worker is when it has come as far as it can. -/
def workerOf : Actor.Served Task Reply → Worker
  | .waiting rest => rest.worker
  | _ => .idle

theorem commits_worker (task : Task) : task.worker.commits = commitsOfTask task := by
  cases task <;> rfl

/-- As long as the worker only goes on, everything stays in order, and what is made goes to the end
of every line. -/
theorem inOrder_advances {run last : Run Unit} (h : InOrder config folder run)
    (hadvances : Advances run last) :
    InOrder config folder last ∧ ∀ consumer, Extends run last consumer := by
  induction hadvances with
  | refl => exact ⟨h, Handover.extends_refl run⟩
  | @tail mid next _ hstep ih =>
    obtain ⟨hmid, hextends⟩ := ih
    have hworked : InOrder config folder next ∧ ∀ consumer, Extends mid next consumer := by
      rw [hstep]
      exact inOrder_worked hmid rfl
    obtain ⟨hnext, hmore⟩ := hworked
    refine ⟨hnext, fun consumer hconsumer => ?_⟩
    obtain ⟨hthere, first, hcommits, hline⟩ := hextends consumer hconsumer
    obtain ⟨hstill, second, hcommits', hline'⟩ := hmore consumer hthere
    refine ⟨hstill, first ++ second, ?_, ?_⟩
    · rw [hcommits', hcommits, List.append_assoc]
    · rw [hline', hline, List.append_assoc]

/-- What a unit of work that the worker has taken up comes to on a queue that takes batches: the
worker can go on, and the commits that are made go to the end of every line. -/
structure Publishes (topic : Topic) (task : Task) (served : Actor.Served Task Reply)
    (after : Topic) : Prop where
  sound : after.queue.Sound
  ready : (workerOf served).Ready after.queue
  made : ∃ made, commitsOfServed served = commitsOfTask task ++ made ∧
    ∀ consumer, topic.queue.IsConsumer consumer → after.queue.IsConsumer consumer ∧
      after.queue.unread consumer ++ (workerOf served).owed after.queue consumer
        = topic.queue.unread consumer ++ task.worker.owed topic.queue consumer ++ made

theorem publishes_of_advances {backlog : Option Backlog} {run : Run Unit} {made : List RawCommit}
    (h : InOrder config folder run) (htopic : run.topic = topic)
    (hworker : run.worker = task.worker)
    (hadvances : Advances run
      { run with worker := .ofBacklog results backlog, topic := after, env := later })
    (hmade : commitsOf results = commitsOfTask task ++ made) :
    Publishes topic task (published results backlog) after := by
  obtain ⟨hlast, hextends⟩ := inOrder_advances h hadvances
  have hready : (workerOf (published results backlog)).Ready after.queue := by
    cases backlog with
    | none => exact hlast.ready.1
    | some backlog => exact hlast.ready
  have howed : ∀ consumer, (workerOf (published results backlog)).owed after.queue consumer
      = (Worker.ofBacklog results backlog).owed after.queue consumer := by
    cases backlog <;> exact fun _ => rfl
  have hcommits : (Worker.ofBacklog results backlog).commits = commitsOf results := by
    cases backlog <;> rfl
  refine ⟨hlast.queue, hready, made, by rw [commitsOfServed_published, hmade], ?_⟩
  intro consumer hconsumer
  rw [← htopic] at hconsumer
  obtain ⟨hthere, more, hmore, hline⟩ := hextends consumer hconsumer
  obtain rfl : more = made := by
    simp only [Run.commits, hcommits, hworker, commits_worker, hmade, ← List.append_assoc] at hmore
    exact (List.append_cancel_left hmore).symm
  refine ⟨hthere, ?_⟩
  rw [howed, ← htopic, ← hworker]
  exact hline

/-- **A unit of work publishes the commits that it makes**, and nothing else. -/
theorem perform_publishes (h : Agrees config topic env.disk folder (front ++ commitsOfTask task))
    (hsound : topic.queue.Sound) (hready : task.worker.Ready topic.queue)
    (htask : task ≠ .shutDown) (hrun : perform task topic env = (served, after, later)) :
    Publishes topic task served after := by
  let run : Run Unit :=
    { topic, env, worker := task.worker, past := front, phase := .unregistered () }
  have hinOrder : InOrder config folder run := by
    refine ⟨?_, hsound, hready⟩
    rw [Run.commits, commits_worker]
    exact h
  cases task with
  | append attempts =>
    rcases hall : appendAll attempts topic env with ⟨results, moved, reached⟩
    rcases hpublish : moved.publish (commitsOf results) with ⟨backlog, ended⟩
    have hran : appendAll attempts run.topic run.env = (results, moved, reached) := hall
    simp only [perform, hall, hpublish] at hrun
    obtain ⟨rfl, rfl, rfl⟩ := hrun
    have hadvances : Advances run _ := Handover.advances_append attempts hran hpublish
    exact publishes_of_advances hinOrder rfl rfl hadvances rfl
  | publish results backlog =>
    rcases hresume : topic.resumePublishing backlog with ⟨rest, ended⟩
    simp only [perform, hresume] at hrun
    obtain ⟨rfl, rfl, rfl⟩ := hrun
    have hadvances : Advances run _ := Handover.advances_resume rfl hresume
    exact publishes_of_advances hinOrder rfl rfl hadvances (List.append_nil _).symm
  | tails =>
    obtain ⟨rfl, rfl, rfl⟩ := hrun
    exact ⟨hsound, hready, [], rfl, fun _ hconsumer => ⟨hconsumer, by simp [workerOf, Task.worker]⟩⟩
  | register =>
    obtain ⟨rfl, rfl, rfl⟩ := hrun
    have hsteady := Queue.steady_subscribe hsound
    refine ⟨(hsteady 0).1.sound, ?_, [], rfl, fun consumer hconsumer => ?_⟩
    · exact (hsteady 0).1.isBusy_eq.trans hready
    · refine ⟨(hsteady consumer).1.isConsumer hconsumer, ?_⟩
      show topic.queue.subscribe.2.unread consumer ++ [] = topic.queue.unread consumer ++ [] ++ []
      rw [(hsteady consumer).2 hconsumer, List.append_nil, List.append_nil]
  | shutDown => exact absurd rfl htask

/-! ## Queues that are closed -/

theorem isClosed_publishBatches (batches : List (List RawCommit))
    (h : topic.queue.isClosed = true) :
    (publishBatches batches topic).2.queue.isClosed = true := by
  cases batches with
  | nil => exact h
  | cons batch rest =>
    have hrefused : publishBatch topic.queue batch = (.rejected ⟨.closed, batch⟩, topic.queue) := by
      unfold publishBatch
      rw [Queue.ofBatch_of_closed h]
    simp only [publishBatches, hrefused]
    exact h

/-- No unit of work opens a queue again. -/
theorem isClosed_perform (h : topic.queue.isClosed = true)
    (hrun : perform task topic env = (served, after, later)) : after.queue.isClosed = true := by
  cases task with
  | append attempts =>
    obtain ⟨-, rfl, -⟩ := hrun
    refine isClosed_publishBatches _ ?_
    rw [appendAll_queue]
    exact h
  | publish results backlog =>
    have hresumed := Queue.isClosed_resume topic.queue backlog.publication
    rw [h] at hresumed
    rcases hresume : topic.queue.resume backlog.publication with ⟨progress, queue⟩
    rw [hresume] at hresumed
    simp only [perform, resumePublishing, hresume] at hrun
    cases progress with
    | published =>
      obtain ⟨-, rfl, -⟩ := hrun
      exact isClosed_publishBatches backlog.later hresumed
    | rejected refusal =>
      obtain ⟨-, rfl, -⟩ := hrun
      exact hresumed
    | waiting publication =>
      obtain ⟨-, rfl, -⟩ := hrun
      exact hresumed
  | tails =>
    obtain ⟨-, rfl, -⟩ := hrun
    exact h
  | register =>
    obtain ⟨-, rfl, -⟩ := hrun
    show topic.queue.subscribe.2.isClosed = true
    rw [← h]
    cases topic.queue <;> rfl
  | shutDown =>
    obtain ⟨-, rfl, -⟩ := hrun
    show topic.queue.close.isClosed = true
    cases topic.queue <;> rfl

/-! ## Services -/

namespace Service

/-- Where the worker is. -/
def worker (service : Service) : Worker :=
  (service.actor.serving.map fun held => held.2.worker).getD .idle

/-- The commits that a consumer has in front of it: those in the queue, and behind them those that
wait for room. -/
def line (service : Service) (consumer : ConsumerId) : List RawCommit :=
  service.topic.queue.unread consumer ++ service.worker.owed service.topic.queue consumer

/-- The commits that were made since, and nothing else, have gone to the end of what every consumer
has in front of it. -/
def Publishes (service after : Service) : Prop :=
  ∃ made, after.commits = service.commits ++ made ∧
    ∀ consumer, service.topic.queue.IsConsumer consumer →
      after.topic.queue.IsConsumer consumer ∧ after.line consumer = service.line consumer ++ made

/-- The worker can go on, as long as the queue takes batches. -/
def Able (service : Service) : Prop :=
  service.topic.queue.isClosed = false →
    service.topic.queue.Sound ∧ service.worker.Ready service.topic.queue

/-- Whatever is made is published: the queue takes batches, or no unit of work is begun. -/
def Heard (service : Service) : Prop :=
  service.topic.queue.isClosed = false ∨ service.actor.closing = true

/-- The worker can go on, and a teardown waits only when closing was requested. -/
structure Keen (service : Service) : Prop where
  able : service.Able
  closing : ∀ entry ∈ service.actor.waiting, ∀ task, entry.2 = .close task →
    service.actor.closing = true

theorem able_of_closed (h : service.topic.queue.isClosed = true) : service.Able := by
  intro hopen
  rw [h] at hopen
  cases hopen

theorem Able.of_serving {after : Service} (h : service.Able)
    (hserving : after.actor.serving = service.actor.serving)
    (htopic : after.topic = service.topic) : after.Able := by
  unfold Service.Able Service.worker
  rw [hserving, htopic]
  exact h

theorem line_of_idle (hidle : service.actor.serving = none) (consumer : ConsumerId) :
    service.line consumer = service.topic.queue.unread consumer := by
  rw [Service.line, Service.worker, hidle]
  exact List.append_nil _

/-- Nothing was made, and nothing has changed for consumers. -/
theorem publishes_of_answered {after : Service}
    (hanswered : answeredCommits after.actor.answers = answeredCommits service.actor.answers)
    (hserving : after.actor.serving = service.actor.serving)
    (htopic : after.topic = service.topic) : service.Publishes after := by
  refine ⟨[], ?_, fun consumer hconsumer => ?_⟩
  · rw [Service.commits, Service.commits, hanswered, hserving, List.append_nil]
  · rw [Service.line, Service.line, Service.worker, Service.worker, hserving, htopic,
      List.append_nil]
    exact ⟨hconsumer, rfl⟩

theorem Publishes.trans {middle : Service} (h : service.Publishes middle)
    (hlater : middle.Publishes last) : service.Publishes last := by
  obtain ⟨first, hcommits, hlines⟩ := h
  obtain ⟨second, hcommits', hlines'⟩ := hlater
  refine ⟨first ++ second, by rw [hcommits', hcommits, List.append_assoc], ?_⟩
  intro consumer hconsumer
  obtain ⟨hthere, hline⟩ := hlines consumer hconsumer
  obtain ⟨hstill, hline'⟩ := hlines' consumer hthere
  exact ⟨hstill, by rw [hline', hline, List.append_assoc]⟩

end Service

/-! ## The worker -/

theorem worker_settleUnit (ticket : Actor.Ticket) (hidle : actor.serving = none) :
    Service.worker ⟨topic, actor.settleUnit ticket served⟩ = workerOf served := by
  cases served <;>
    simp [Service.worker, Actor.settleUnit, Actor.answer, hidle, workerOf]

theorem closing_settleUnit (actor : Actor Task Reply) (ticket : Actor.Ticket)
    (served : Actor.Served Task Reply) :
    (actor.settleUnit ticket served).closing = actor.closing := by
  cases served <;> rfl

/-- **The worker takes up a unit of work, or goes on with it.** While the queue takes batches, it
goes on to do so, and what is made is published. -/
theorem publishes_settleUnit (service : Service) (ticket : Actor.Ticket)
    (hidle : actor.serving = none)
    (hcommits : service.commits = answeredCommits actor.answers ++ commitsOfTask task)
    (howed : ∀ consumer, service.worker.owed service.topic.queue consumer
      = task.worker.owed service.topic.queue consumer)
    (hready : service.topic.queue.isClosed = false →
      service.topic.queue.Sound ∧ task.worker.Ready service.topic.queue)
    (h : Agrees config service.topic env.disk folder (past ++ service.commits))
    (htask : task ≠ .shutDown) (hrun : perform task service.topic env = (served, after, later)) :
    Service.Able ⟨after, actor.settleUnit ticket served⟩ ∧
      (service.topic.queue.isClosed = false → after.queue.isClosed = false ∧
        service.Publishes ⟨after, actor.settleUnit ticket served⟩) := by
  cases hclosed : service.topic.queue.isClosed with
  | true => exact ⟨Service.able_of_closed (isClosed_perform hclosed hrun), fun h => by cases h⟩
  | false =>
    obtain ⟨hsound, hcanGo⟩ := hready hclosed
    rw [hcommits, ← List.append_assoc] at h
    have hunit := perform_publishes h hsound hcanGo htask hrun
    have hopen := Queue.isClosed_of_sound hunit.sound
    obtain ⟨made, hmade, hlines⟩ := hunit.made
    refine ⟨fun _ => ⟨hunit.sound, ?_⟩, fun _ => ⟨hopen, made, ?_, fun consumer hconsumer => ?_⟩⟩
    · rw [worker_settleUnit ticket hidle]
      exact hunit.ready
    · rw [hcommits, List.append_assoc, ← hmade]
      exact commits_settleUnit actor ticket served hidle
    · obtain ⟨hthere, hline⟩ := hlines consumer hconsumer
      refine ⟨hthere, ?_⟩
      rw [Service.line, Service.line, worker_settleUnit ticket hidle, howed]
      exact hline

theorem closing_resume {next : Actor Task Reply}
    (hrun : actor.resume behaviour (topic, env) = (next, after, later)) :
    next.closing = actor.closing ∧ next.waiting = actor.waiting := by
  unfold Actor.resume at hrun
  cases hserving : actor.serving with
  | none =>
    simp only [hserving] at hrun
    obtain ⟨rfl, -⟩ := hrun
    exact ⟨rfl, rfl⟩
  | some held =>
    simp only [hserving] at hrun
    rw [← (Prod.mk.inj hrun).1]
    exact ⟨closing_settleUnit _ _ _, waiting_settleUnit _ _ _⟩

theorem isClosed_resume (h : topic.queue.isClosed = true) {next : Actor Task Reply}
    (hrun : actor.resume behaviour (topic, env) = (next, after, later)) :
    after.queue.isClosed = true := by
  unfold Actor.resume at hrun
  cases hserving : actor.serving with
  | none =>
    simp only [hserving] at hrun
    obtain ⟨rfl, rfl, rfl⟩ := hrun
    exact h
  | some held =>
    rcases hperform : perform held.2 topic env with ⟨served, moved, reached⟩
    simp only [hserving, behaviour, hperform] at hrun
    obtain ⟨rfl, rfl, rfl⟩ := hrun
    exact isClosed_perform h hperform

theorem resume_publishes (h : Serves config folder past actor topic env)
    (hable : Service.Able ⟨topic, actor⟩) {next : Actor Task Reply}
    (hrun : actor.resume behaviour (topic, env) = (next, after, later)) :
    Service.Able ⟨after, next⟩ ∧
      (topic.queue.isClosed = false →
        after.queue.isClosed = false ∧ Service.Publishes ⟨topic, actor⟩ ⟨after, next⟩) := by
  unfold Actor.resume at hrun
  cases hserving : actor.serving with
  | none =>
    simp only [hserving] at hrun
    obtain ⟨rfl, rfl, rfl⟩ := hrun
    exact ⟨hable, fun hopen => ⟨hopen, Service.publishes_of_answered rfl rfl rfl⟩⟩
  | some held =>
    obtain ⟨ticket, task⟩ := held
    obtain ⟨results, backlog, rfl⟩ := h.serving ticket task hserving
    rcases hperform : perform (.publish results backlog) topic env with ⟨served, moved, reached⟩
    simp only [hserving, behaviour, hperform] at hrun
    obtain ⟨rfl, rfl, rfl⟩ := hrun
    have hworker : Service.worker ⟨topic, actor⟩ = (Task.publish results backlog).worker := by
      rw [Service.worker, hserving]
      rfl
    refine publishes_settleUnit ⟨topic, actor⟩ ticket rfl ?_ ?_ ?_ h.agrees (by simp) hperform
    · rw [Service.commits, hserving]
      rfl
    · intro consumer
      rw [hworker]
    · rw [← hworker]
      exact hable

theorem closing_begin {ticket : Actor.Ticket} {envelope : Actor.Envelope Task}
    {next : Actor Task Reply}
    (hrun : actor.begin behaviour ticket envelope (topic, env) = (next, after, later)) :
    next.closing = actor.closing := by
  cases envelope with
  | run task =>
    simp only [Actor.begin] at hrun
    split at hrun
    next =>
      obtain ⟨rfl, -⟩ := hrun
      rfl
    next =>
      rw [← (Prod.mk.inj hrun).1]
      exact closing_settleUnit _ _ _
  | close task =>
    obtain ⟨rfl, -⟩ := hrun
    rfl

theorem begin_publishes (h : Serves config folder past actor topic env)
    (hable : Service.Able ⟨topic, actor⟩) (hidle : actor.serving = none) (ticket : Actor.Ticket)
    {envelope : Actor.Envelope Task} (henvelope : IsSubmission envelope)
    (hcloses : ∀ task, envelope = .close task → actor.closing = true) {next : Actor Task Reply}
    (hrun : actor.begin behaviour ticket envelope (topic, env) = (next, after, later)) :
    Service.Able ⟨after, next⟩ ∧
      (Service.Heard ⟨topic, actor⟩ →
        Service.Heard ⟨after, next⟩ ∧ Service.Publishes ⟨topic, actor⟩ ⟨after, next⟩) := by
  have hworker : Service.worker ⟨topic, actor⟩ = .idle := by
    rw [Service.worker, hidle]
    rfl
  cases envelope with
  | run task =>
    simp only [Actor.begin] at hrun
    split at hrun
    next hrefused =>
      obtain ⟨rfl, rfl, rfl⟩ := hrun
      exact ⟨hable, fun hheard => ⟨hheard,
        Service.publishes_of_answered (answeredCommits_error _ _ _) rfl rfl⟩⟩
    next htaken =>
      rcases hperform : perform task topic env with ⟨served, moved, reached⟩
      simp only [behaviour, hperform] at hrun
      obtain ⟨rfl, rfl, rfl⟩ := hrun
      -- what is submitted has made nothing yet, and is owed to nobody
      have hcommits : Service.commits ⟨topic, actor⟩
          = answeredCommits actor.answers ++ commitsOfTask task := by
        rw [Service.commits, hidle]
        cases henvelope <;> rfl
      have howed : ∀ consumer, (Service.worker ⟨topic, actor⟩).owed topic.queue consumer
          = task.worker.owed topic.queue consumer := by
        intro consumer
        rw [hworker]
        cases henvelope <;> rfl
      have hready : topic.queue.isClosed = false →
          topic.queue.Sound ∧ task.worker.Ready topic.queue := by
        intro hopen
        have hcanGo := hable hopen
        rw [hworker] at hcanGo
        cases henvelope <;> exact hcanGo
      have htask : task ≠ .shutDown := by
        rintro rfl
        cases henvelope
      obtain ⟨hafter, hpublishes⟩ := publishes_settleUnit ⟨topic, actor⟩ ticket hidle hcommits
        howed hready h.agrees htask hperform
      refine ⟨hafter, fun hheard => ?_⟩
      obtain ⟨hopen, hmade⟩ := hpublishes (hheard.resolve_right htaken)
      exact ⟨Or.inl hopen, hmade⟩
  | close task =>
    obtain ⟨rfl, rfl, rfl⟩ := hrun
    -- the queue is closed, but what is in it stays
    refine ⟨Service.able_of_closed (Queue.isClosed_close topic.queue), fun _ =>
      ⟨Or.inr (hcloses task rfl), [], ?_, fun consumer hconsumer => ⟨?_, ?_⟩⟩⟩
    · rw [List.append_nil, Service.commits, Service.commits,
        ← answeredCommits_shutDown actor.answers ticket]
      rfl
    · exact (Queue.isConsumer_close topic.queue consumer).2 hconsumer
    · calc Service.line _ consumer = topic.queue.close.unread consumer :=
            Service.line_of_idle hidle consumer
        _ = topic.queue.unread consumer := Queue.unread_close topic.queue consumer
        _ = Service.line ⟨topic, actor⟩ consumer ++ [] := by
            rw [List.append_nil, Service.line_of_idle hidle]

theorem work_publishes (pending : List (Actor.Ticket × Actor.Envelope Task)) :
    ∀ (actor : Actor Task Reply) (topic : Topic) (env : Env) {next : Actor Task Reply}
      {after : Topic} {later : Env},
      (∀ entry ∈ pending, IsSubmission entry.2) →
      (∀ entry ∈ pending, ∀ task, entry.2 = .close task → actor.closing = true) →
      Serves config folder past actor topic env → Service.Able ⟨topic, actor⟩ →
      Actor.work behaviour pending actor (topic, env) = (next, after, later) →
      Service.Keen ⟨after, next⟩ ∧
        (Service.Heard ⟨topic, actor⟩ → Service.Publishes ⟨topic, actor⟩ ⟨after, next⟩) := by
  induction pending with
  | nil =>
    intro actor topic env next after later _ _ _ hable hrun
    obtain ⟨rfl, rfl, rfl⟩ := hrun
    exact ⟨⟨hable, by simp⟩, fun _ => Service.publishes_of_answered rfl rfl rfl⟩
  | cons entry rest ih =>
    intro actor topic env next after later hpending hcloses h hable hrun
    obtain ⟨ticket, envelope⟩ := entry
    unfold Actor.work at hrun
    split at hrun
    next =>
      obtain ⟨rfl, rfl, rfl⟩ := hrun
      exact ⟨⟨hable, hcloses⟩, fun _ => Service.publishes_of_answered rfl rfl rfl⟩
    next hbusy =>
      have hidle : actor.serving = none := Option.not_isSome_iff_eq_none.1 hbusy
      rcases hbegin : actor.begin behaviour ticket envelope (topic, env) with
        ⟨moved, middle, reached⟩
      simp only [hbegin] at hrun
      have hsubmission := hpending _ List.mem_cons_self
      obtain ⟨hmoved, hpublishes⟩ := begin_publishes h hable hidle ticket hsubmission
        (hcloses _ List.mem_cons_self) hbegin
      obtain ⟨hnext, hrest⟩ := ih moved middle reached
        (fun other hother => hpending other (List.mem_cons_of_mem _ hother))
        (fun other hother task htask => by
          rw [closing_begin hbegin]
          exact hcloses other (List.mem_cons_of_mem _ hother) task htask)
        (begin_serves h hidle ticket hsubmission hbegin).1 hmoved hrun
      refine ⟨hnext, fun hheard => ?_⟩
      obtain ⟨hstill, hmade⟩ := hpublishes hheard
      exact hmade.trans (hrest hstill)

/-! ## Going on -/

/-- **Whatever the worker does, it publishes the commits that it makes.** -/
theorem settle_publishes (h : Serves config folder past service.actor service.topic env)
    (hkeen : service.Keen) :
    (service.settle env).1.Keen ∧ (service.topic.queue.isClosed = false →
      service.Publishes (service.settle env).1) := by
  obtain ⟨moved, middle, reached, hresume, hwork⟩ := service.exists_settle env
  obtain ⟨hable, hpublishes⟩ := resume_publishes h hkeen.able hresume
  have hmoved := (resume_serves h hresume).1
  obtain ⟨hclosing, hwaiting⟩ := closing_resume hresume
  obtain ⟨hnext, hrest⟩ := work_publishes moved.waiting moved middle reached hmoved.waiting
    (by rw [hwaiting, hclosing]; exact hkeen.closing) hmoved hable hwork
  refine ⟨hnext, fun hopen => ?_⟩
  obtain ⟨hstill, hmade⟩ := hpublishes hopen
  exact hmade.trans (hrest (Or.inl hstill))

/-- A submission waits, or is refused. -/
theorem serving_enqueue (actor : Actor Task Reply) (envelope : Actor.Envelope Task) :
    (actor.enqueue envelope).2.serving = actor.serving ∧
      answeredCommits (actor.enqueue envelope).2.answers = answeredCommits actor.answers := by
  unfold Actor.enqueue
  split
  next => exact ⟨rfl, answeredCommits_error _ _ _⟩
  next => exact ⟨rfl, rfl⟩

/-- Closing lets the worker come to the teardown, and what is made before is published. -/
theorem shut_publishes (h : Serves config folder past service.actor service.topic env)
    (hkeen : service.Keen) :
    (service.shut env).1.Keen ∧ (service.topic.queue.isClosed = false →
      service.Publishes (service.shut env).1) := by
  obtain ⟨hserving, hanswered⟩ := serving_enqueue service.actor (.close .shutDown)
  let closing : Service :=
    ⟨service.topic, { (service.actor.enqueue (.close .shutDown)).2 with closing := true }⟩
  have hlast := enqueue_serves h .shutDown
  have hsame : service.Publishes closing :=
    Service.publishes_of_answered hanswered hserving rfl
  have hable : closing.Able := hkeen.able.of_serving hserving rfl
  have hcloses : ∀ entry ∈ closing.actor.waiting, ∀ task, entry.2 = .close task →
      closing.actor.closing = true := fun _ _ _ _ => rfl
  have hserves : Serves config folder past closing.actor closing.topic env :=
    ⟨hlast.waiting, hlast.serving, hlast.agrees⟩
  obtain ⟨hafter, hpublishes⟩ := settle_publishes hserves ⟨hable, hcloses⟩
  exact ⟨hafter, fun hopen => hsame.trans (hpublishes hopen)⟩

/-! ## The whole life -/

theorem steady_consumes {queue after : Queue RawCommit} (hconsumes : Consumes queue after)
    (hsound : queue.Sound) : ∃ consumer, queue.Steady after consumer := by
  cases hconsumes with
  | registered => exact ⟨0, (Queue.steady_subscribe hsound 0).1⟩
  | polled consumer => exact ⟨consumer, Queue.steady_next hsound consumer⟩
  | left consumer =>
    have hapart : consumer ≠ consumer + 1 := Nat.ne_of_lt (Nat.lt_succ_self _)
    exact ⟨consumer + 1, (Queue.steady_unsubscribe hsound hapart).1⟩

theorem isClosed_consumes {queue after : Queue RawCommit} (hconsumes : Consumes queue after) :
    after.isClosed = queue.isClosed := by
  cases hconsumes with
  | registered => cases queue <;> rfl
  | polled consumer => exact Queue.isClosed_next queue consumer
  | left consumer => cases queue <;> rfl

/-- A queue that was closed leaves nothing to go on with. -/
theorem closeQueue_keen (hkeen : service.Keen) (env : Env) : (service.closeQueue env).1.Keen := by
  rcases hresume : (service.mapQueue Queue.stop).actor.resume behaviour
    ((service.mapQueue Queue.stop).topic, env) with ⟨moved, middle, reached⟩
  have hstopped : (service.mapQueue Queue.stop).topic.queue.isClosed = true :=
    Queue.isClosed_stop service.topic.queue
  have hclosed : middle.queue.disconnect.isClosed = true := by
    rw [Queue.isClosed_disconnect]
    exact isClosed_resume hstopped hresume
  obtain ⟨hclosing, hwaiting⟩ := closing_resume hresume
  simp only [Service.closeQueue, hresume]
  refine ⟨Service.able_of_closed hclosed, ?_⟩
  show ∀ entry ∈ moved.waiting, ∀ task, entry.2 = .close task → moved.closing = true
  rw [hclosing, hwaiting]
  exact hkeen.closing

theorem submit_keen (hkeen : service.Keen) (task : Task) : (service.submit task).2.Keen := by
  obtain ⟨hserving, -⟩ := serving_enqueue service.actor (.run task)
  constructor
  · exact hkeen.able.of_serving hserving rfl
  · show ∀ entry ∈ (service.actor.enqueue (.run task)).2.waiting, ∀ teardown,
      entry.2 = .close teardown → (service.actor.enqueue (.run task)).2.closing = true
    unfold Actor.enqueue
    split
    next hclosing => exact fun _ _ _ _ => hclosing
    next =>
      intro entry hentry teardown hteardown
      rcases List.mem_append.1 hentry with hentry | hentry
      · exact hkeen.closing entry hentry teardown hteardown
      · rw [List.mem_singleton.1 hentry] at hteardown
        cases hteardown

/-- **Whatever happens to a topic in service, its worker can go on.** -/
theorem tends_keen (h : Serves config folder past service.actor service.topic env)
    (hkeen : service.Keen) {after : Service} (htends : Tends service env after later) :
    after.Keen := by
  cases htends with
  | submitted submission => exact submit_keen hkeen _
  | settled => exact (settle_publishes h hkeen).1
  | consumed consumes =>
    refine ⟨fun hopen => ?_, hkeen.closing⟩
    obtain ⟨hsound, hready⟩ := hkeen.able ((isClosed_consumes consumes).symm.trans hopen)
    obtain ⟨consumer, hsteady⟩ := steady_consumes consumes hsound
    exact ⟨hsteady.sound, Handover.ready_steady hready hsteady⟩
  | queueClosed => exact closeQueue_keen hkeen env
  | shut => exact (shut_publishes h hkeen).1

theorem Step.keen_opened (h : Step config root home life next)
    (hlife : Consistent config root home life) (hidle : life.service = none)
    (hservice : next.service = some service) : service.Keen := by
  obtain ⟨topic, depth, fanout, rfl, hqueue⟩ := h.exists_opened hlife hidle hservice
  refine ⟨fun _ => ?_, by simp [Service.start, Actor.start]⟩
  show topic.queue.Sound ∧ topic.queue.isBusy = false
  rw [hqueue]
  exact ⟨Queue.sound_ofFanout fanout, Queue.isBusy_ofFanout fanout⟩

theorem Observed.keen (h : Observed config root home life)
    (hservice : life.service = some service) : service.Keen := by
  induction h generalizing service with
  | fresh h => simp [h.service] at hservice
  | tended hobserved running tends ih =>
    obtain rfl := Option.some.inj hservice
    obtain ⟨directory, -, hserves⟩ := hobserved.reachable.consistent.serves _ running
    exact tends_keen hserves (ih running) tends
  | step hobserved hstep apart ih =>
    rcases apart with hidle | hnone | hsame
    · exact hstep.keen_opened hobserved.reachable.consistent hidle hservice
    · simp [hnone] at hservice
    · exact ih (hsame.symm.trans hservice)

/-- **Whatever has happened to a topic, the actor publishes the commits that it makes**, be it the
last time that it goes on. -/
theorem Observed.publishes (h : Observed config root home life)
    (hservice : life.service = some service) (hopen : service.topic.queue.isClosed = false) :
    service.Publishes (service.settle life.env).1 ∧
      service.Publishes (service.shut life.env).1 := by
  obtain ⟨directory, -, hserves⟩ := h.reachable.consistent.serves service hservice
  have hkeen := h.keen hservice
  exact ⟨(settle_publishes hserves hkeen).2 hopen, (shut_publishes hserves hkeen).2 hopen⟩

end CommitLog.Topic
