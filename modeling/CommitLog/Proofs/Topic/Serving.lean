import CommitLog.Proofs.Topic.Agreement
import CommitLog.Topic.Service

/-!
# A topic in service

The actor of a topic runs one unit of work after another, so what every unit keeps up, the service
keeps up. The commits that it has made are those that its callers have been told of, and behind
them those of the unit that still waits to publish: that unit has appended, and nothing else is
begun before it is done.
-/

namespace CommitLog.Topic

open CommitLog.Disk (Place Keeps)

variable {config : Config} {topic : Topic} {folder : Folder} {past : List RawCommit} {env : Env}
  {actor : Actor Task Reply}

/-- The commits that callers have been told of, in order. -/
def answeredCommits (answers : List (Actor.Ticket × Except Actor.Error Reply)) : List RawCommit :=
  answers.flatMap fun (_, answer) =>
    match answer with
    | .ok (.results results) => commitsOf results
    | _ => []

/-- The commits of the unit that the worker has begun. -/
def servingCommits : Option (Actor.Ticket × Task) → List RawCommit
  | some (_, task) => commitsOfTask task
  | none => []

/-- The commits that a service has made, in order. -/
def Service.commits (service : Service) : List RawCommit :=
  answeredCommits service.actor.answers ++ servingCommits service.actor.serving

/-- What callers submit to the actor of a topic. -/
inductive IsSubmission : Actor.Envelope Task → Prop where
  | append (attempts : List RawAttempt) : IsSubmission (.run (.append attempts))
  | tails : IsSubmission (.run .tails)
  | register : IsSubmission (.run .register)
  | shutDown : IsSubmission (.close .shutDown)

/-- The service has done its work so far: files, indexes and history agree, and no unit is lost. -/
structure Serves (config : Config) (folder : Folder) (past : List RawCommit)
    (actor : Actor Task Reply) (topic : Topic) (env : Env) : Prop where
  waiting : ∀ entry ∈ actor.waiting, IsSubmission entry.2
  serving : ∀ ticket task, actor.serving = some (ticket, task) →
    ∃ results backlog, task = .publish results backlog
  agrees : Agrees config topic env.disk folder
    (past ++ (answeredCommits actor.answers ++ servingCommits actor.serving))

theorem answeredCommits_append (answers : List (Actor.Ticket × Except Actor.Error Reply))
    (ticket : Actor.Ticket) (answer : Except Actor.Error Reply) :
    answeredCommits (answers ++ [(ticket, answer)])
      = answeredCommits answers ++ answeredCommits [(ticket, answer)] := List.flatMap_append

theorem answeredCommits_error (answers : List (Actor.Ticket × Except Actor.Error Reply))
    (ticket : Actor.Ticket) (e : Actor.Error) :
    answeredCommits (answers ++ [(ticket, .error e)]) = answeredCommits answers := by
  rw [answeredCommits_append]
  exact List.append_nil _

/-- A teardown that is answered makes no commit. -/
theorem answeredCommits_shutDown (answers : List (Actor.Ticket × Except Actor.Error Reply))
    (ticket : Actor.Ticket) :
    answeredCommits (answers ++ [(ticket, .ok .shutDown)]) = answeredCommits answers := by
  rw [answeredCommits_append]
  exact List.append_nil _

/-! ## One unit -/

/-- Noting how far a unit has come counts its commits. -/
theorem commits_settleUnit (actor : Actor Task Reply) (ticket : Actor.Ticket)
    (served : Actor.Served Task Reply) (hserving : actor.serving = none) :
    answeredCommits (actor.settleUnit ticket served).answers
        ++ servingCommits (actor.settleUnit ticket served).serving
      = answeredCommits actor.answers ++ commitsOfServed served := by
  cases served with
  | done value =>
    simp only [Actor.settleUnit, Actor.answer, hserving, servingCommits, List.append_nil,
      answeredCommits_append]
    cases value <;> simp [answeredCommits, commitsOfServed]
  | panicked panic =>
    simp only [Actor.settleUnit, Actor.answer, hserving, servingCommits, List.append_nil,
      answeredCommits_error, commitsOfServed]
  | waiting rest => rfl

theorem waiting_settleUnit (actor : Actor Task Reply) (ticket : Actor.Ticket)
    (served : Actor.Served Task Reply) :
    (actor.settleUnit ticket served).waiting = actor.waiting := by
  cases served <;> rfl

theorem serving_settleUnit (actor : Actor Task Reply) (ticket : Actor.Ticket)
    (served : Actor.Served Task Reply) (hserving : actor.serving = none) {held : Actor.Ticket}
    {task : Task} (h : (actor.settleUnit ticket served).serving = some (held, task)) :
    served = .waiting task := by
  cases served with
  | done value => simp [Actor.settleUnit, Actor.answer, hserving] at h
  | panicked panic => simp [Actor.settleUnit, Actor.answer, hserving] at h
  | waiting rest =>
    simp only [Actor.settleUnit, Option.some.injEq, Prod.mk.injEq] at h
    rw [h.2]

/-- A unit of work that the worker runs keeps the service in order. -/
theorem serves_settleUnit {task : Task} {served : Actor.Served Task Reply} {after : Topic}
    {later : Env} (ticket : Actor.Ticket) (hserving : actor.serving = none)
    (hwaiting : ∀ entry ∈ actor.waiting, IsSubmission entry.2)
    (h : Agrees config topic env.disk folder
      (past ++ (answeredCommits actor.answers ++ commitsOfTask task)))
    (hrun : perform task topic env = (served, after, later)) :
    Serves config folder past (actor.settleUnit ticket served) after later ∧
      Keeps env.disk later.disk (Place.directory · ≠ folder.directory) := by
  rw [← List.append_assoc] at h
  obtain ⟨hagrees, hkeeps⟩ := perform_agrees h hrun
  refine ⟨⟨?_, ?_, ?_⟩, hkeeps⟩
  · rw [waiting_settleUnit]
    exact hwaiting
  · intro held rest hheld
    have hrest := serving_settleUnit actor ticket served hserving hheld
    rw [hrest] at hrun
    exact perform_waiting hrun
  · rw [commits_settleUnit actor ticket served hserving, ← List.append_assoc]
    exact hagrees

/-! ## The worker -/

theorem resume_serves (h : Serves config folder past actor topic env) {next : Actor Task Reply}
    {after : Topic} {later : Env}
    (hrun : actor.resume behaviour (topic, env) = (next, after, later)) :
    Serves config folder past next after later ∧
      Keeps env.disk later.disk (Place.directory · ≠ folder.directory) := by
  unfold Actor.resume at hrun
  cases hserving : actor.serving with
  | none =>
    simp only [hserving] at hrun
    obtain ⟨rfl, rfl, rfl⟩ := hrun
    exact ⟨h, Keeps.refl h.agrees.sound h.agrees.reliable _⟩
  | some held =>
    obtain ⟨ticket, task⟩ := held
    rcases hperform : perform task topic env with ⟨served, moved, reached⟩
    simp only [hserving, behaviour, hperform] at hrun
    obtain ⟨rfl, rfl, rfl⟩ := hrun
    have hagrees := h.agrees
    rw [hserving] at hagrees
    exact serves_settleUnit ticket rfl h.waiting hagrees hperform

theorem begin_serves (h : Serves config folder past actor topic env)
    (hserving : actor.serving = none) (ticket : Actor.Ticket) {envelope : Actor.Envelope Task}
    (henvelope : IsSubmission envelope) {next : Actor Task Reply} {after : Topic} {later : Env}
    (hrun : actor.begin behaviour ticket envelope (topic, env) = (next, after, later)) :
    Serves config folder past next after later ∧
      Keeps env.disk later.disk (Place.directory · ≠ folder.directory) := by
  have hagrees := h.agrees
  rw [hserving] at hagrees
  have hunit : ∀ task, commitsOfTask task = [] → envelope = .run task →
      Serves config folder past next after later ∧
        Keeps env.disk later.disk (Place.directory · ≠ folder.directory) := by
    intro task htask henv
    subst henv
    simp only [Actor.begin] at hrun
    split at hrun
    next =>
      obtain ⟨rfl, rfl, rfl⟩ := hrun
      refine ⟨⟨h.waiting, h.serving, ?_⟩, Keeps.refl h.agrees.sound h.agrees.reliable _⟩
      simp only [Actor.refuse, Actor.answer, answeredCommits_error]
      exact h.agrees
    next =>
      rcases hperform : perform task topic env with ⟨served, moved, reached⟩
      simp only [behaviour, hperform] at hrun
      obtain ⟨rfl, rfl, rfl⟩ := hrun
      refine serves_settleUnit ticket hserving h.waiting ?_ hperform
      rw [htask]
      exact hagrees
  cases henvelope with
  | append attempts => exact hunit _ rfl rfl
  | tails => exact hunit _ rfl rfl
  | register => exact hunit _ rfl rfl
  | shutDown =>
    rcases hdown : topic.shutDown env with ⟨moved, reached⟩
    simp only [Actor.begin, behaviour, hdown] at hrun
    obtain ⟨rfl, rfl, rfl⟩ := hrun
    obtain ⟨hmoved, hkeeps⟩ := shutDown_agrees h.agrees hdown
    refine ⟨⟨h.waiting, h.serving, ?_⟩, hkeeps⟩
    simp only [Actor.answer, answeredCommits_shutDown]
    exact hmoved

theorem work_serves (pending : List (Actor.Ticket × Actor.Envelope Task)) :
    ∀ (actor : Actor Task Reply) (topic : Topic) (env : Env) {next : Actor Task Reply}
      {after : Topic} {later : Env},
      (∀ entry ∈ pending, IsSubmission entry.2) → Serves config folder past actor topic env →
      Actor.work behaviour pending actor (topic, env) = (next, after, later) →
      Serves config folder past next after later ∧
        Keeps env.disk later.disk (Place.directory · ≠ folder.directory) := by
  induction pending with
  | nil =>
    intro actor topic env next after later _ h hrun
    obtain ⟨rfl, rfl, rfl⟩ := hrun
    exact ⟨⟨by simp, h.serving, h.agrees⟩, Keeps.refl h.agrees.sound h.agrees.reliable _⟩
  | cons entry rest ih =>
    intro actor topic env next after later hpending h hrun
    obtain ⟨ticket, envelope⟩ := entry
    unfold Actor.work at hrun
    split at hrun
    next =>
      obtain ⟨rfl, rfl, rfl⟩ := hrun
      exact ⟨⟨hpending, h.serving, h.agrees⟩, Keeps.refl h.agrees.sound h.agrees.reliable _⟩
    next hidle =>
      have hserving : actor.serving = none := Option.not_isSome_iff_eq_none.1 hidle
      rcases hbegin : actor.begin behaviour ticket envelope (topic, env) with
        ⟨moved, middle, reached⟩
      simp only [hbegin] at hrun
      obtain ⟨hmoved, hkeeps⟩ :=
        begin_serves h hserving ticket (hpending _ List.mem_cons_self) hbegin
      obtain ⟨hnext, hrest⟩ := ih moved middle reached
        (fun x hx => hpending x (List.mem_cons_of_mem _ hx)) hmoved hrun
      exact ⟨hnext, hkeeps.trans hrest⟩

/-! ## What callers do -/

theorem enqueue_serves (h : Serves config folder past actor topic env)
    {envelope : Actor.Envelope Task} (henvelope : IsSubmission envelope) :
    Serves config folder past (actor.enqueue envelope).2 topic env := by
  unfold Actor.enqueue
  split
  next =>
    refine ⟨h.waiting, h.serving, ?_⟩
    simp only [Actor.refuse, Actor.answer, answeredCommits_error]
    exact h.agrees
  next =>
    refine ⟨?_, h.serving, h.agrees⟩
    intro entry hentry
    rcases List.mem_append.1 hentry with hentry | hentry
    · exact h.waiting entry hentry
    · rw [List.mem_singleton.1 hentry]
      exact henvelope

namespace Service

variable {service : Service}

/-- A service that has done its work so far. -/
def InOrder (config : Config) (folder : Folder) (past : List RawCommit) (service : Service)
    (env : Env) : Prop := Serves config folder past service.actor service.topic env

theorem inOrder_submit (h : service.InOrder config folder past env) {task : Task}
    (htask : IsSubmission (.run task)) : (service.submit task).2.InOrder config folder past env :=
  enqueue_serves h htask

theorem inOrder_mapQueue (h : service.InOrder config folder past env)
    (change : Queue RawCommit → Queue RawCommit) :
    (service.mapQueue change).InOrder config folder past env :=
  ⟨h.waiting, h.serving, h.agrees.of_partitions rfl rfl⟩

/-- The worker goes on with the unit that it has begun, and then works through its mailbox. -/
theorem exists_settle (service : Service) (env : Env) : ∃ moved middle reached,
    service.actor.resume behaviour (service.topic, env) = (moved, middle, reached) ∧
      Actor.work behaviour moved.waiting moved (middle, reached)
        = ((service.settle env).1.actor, (service.settle env).1.topic, (service.settle env).2) :=
  ⟨_, _, _, rfl, rfl⟩

theorem inOrder_settle (h : service.InOrder config folder past env) :
    (service.settle env).1.InOrder config folder past (service.settle env).2 ∧
      Keeps env.disk (service.settle env).2.disk (Place.directory · ≠ folder.directory) := by
  obtain ⟨moved, middle, reached, hresume, hwork⟩ := service.exists_settle env
  obtain ⟨hmoved, hkeeps⟩ := resume_serves h hresume
  obtain ⟨hnext, hrest⟩ :=
    work_serves moved.waiting moved middle reached hmoved.waiting hmoved hwork
  exact ⟨hnext, hkeeps.trans hrest⟩

theorem inOrder_closeQueue (h : service.InOrder config folder past env) :
    (service.closeQueue env).1.InOrder config folder past (service.closeQueue env).2 ∧
      Keeps env.disk (service.closeQueue env).2.disk (Place.directory · ≠ folder.directory) := by
  have hstopped := inOrder_mapQueue h Queue.stop
  rcases hresume : (service.mapQueue Queue.stop).actor.resume behaviour
    ((service.mapQueue Queue.stop).topic, env) with ⟨moved, middle, reached⟩
  obtain ⟨hmoved, hkeeps⟩ := resume_serves hstopped hresume
  have hclose : service.closeQueue env
      = ({ mapQueue ⟨middle, moved⟩ Queue.disconnect with
            topic := (mapQueue ⟨middle, moved⟩ Queue.disconnect).topic.wake }, reached) := by
    simp only [closeQueue, hresume]
  rw [hclose]
  exact ⟨⟨hmoved.waiting, hmoved.serving, hmoved.agrees.of_partitions rfl rfl⟩, hkeeps⟩

theorem inOrder_shut (h : service.InOrder config folder past env) :
    (service.shut env).1.InOrder config folder past (service.shut env).2 ∧
      Keeps env.disk (service.shut env).2.disk (Place.directory · ≠ folder.directory) := by
  have hlast := enqueue_serves h .shutDown
  exact inOrder_settle ⟨hlast.waiting, hlast.serving, hlast.agrees⟩

end Service

end CommitLog.Topic
