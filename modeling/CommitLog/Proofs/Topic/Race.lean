import CommitLog.Channel
import CommitLog.Proofs.Topic.Trial

/-!
# Writers that race for the tail

Any number of writers make attempts on a topic that has been recovered, and the actor serves them in
some order, alone or in units. In between, other units of work run, consumers do what they like with
the queue, and other topics write other files. `Race` is such a course of events with a record of
everything that was attempted.

Whatever the order, each partition gets one chain of commits that begins at the tail the topic was
recovered with and ends at the tail of now (`Line.chained`): every commit starts where the one before
it has ended. Since a tail is never left twice, no two commits were expected at the same position.
The main theorem is `racing_attempts_are_linear`.
-/

namespace CommitLog.Topic

open CommitLog.Disk (top)

variable {config : Config} {first topic moved : Topic} {env next : Env} {number : UInt32}

/-! ## Chains -/

/-- Commits that lead from one position to another, each starting where the one before it ends. -/
def Chained : Revision → List RawCommit → Revision → Prop
  | start, [], stop => start = stop
  | start, commit :: later, stop =>
    commit.expected = start ∧ commit.expected.offset < commit.actual.offset ∧
      Chained commit.actual later stop

theorem Chained.concat {start stop : Revision} {commits : List RawCommit} {commit : RawCommit}
    (h : Chained start commits stop) (hexpected : commit.expected = stop)
    (hlt : commit.expected.offset < commit.actual.offset) :
    Chained start (commits ++ [commit]) commit.actual := by
  induction commits generalizing start with
  | nil =>
    obtain rfl : start = stop := h
    exact ⟨hexpected, hlt, rfl⟩
  | cons other later ih =>
    obtain ⟨hother, hgrows, hlater⟩ := h
    exact ⟨hother, hgrows, ih hlater⟩

/-! ## Attempts in a row -/

/-- A topic in the course of a race: what is true of its tails and of all attempts so far. -/
structure Line (config : Config) (first : Topic) (trials : List Trial) (topic : Topic) (env : Env) :
    Prop where
  ready : Ready config topic env.disk
  judged : ∀ trial ∈ trials, Judged config trial
  chained : ∀ number, number < config.partitions →
    Chained (first.tails.get number) (commitsIn (trials.filterMap Trial.commit?) number)
      (topic.tails.get number)
  /-- Every position that a commit was expected at has been left behind. -/
  behind : ∀ trial ∈ trials, trial.commit?.isSome →
    trial.number < config.partitions ∧
      trial.attempt.expected.offset < (topic.tails.get trial.number).offset
  once : trials.Pairwise fun trial later =>
    trial.commit?.isSome → later.commit?.isSome → trial.attempt.expected ≠ later.attempt.expected

namespace Line

variable {trials : List Trial}

theorem start (h : Ready config first env.disk) : Line config first [] first env where
  ready := h
  judged := by simp
  chained _ _ := rfl
  behind := by simp
  once := List.Pairwise.nil

/-- What is no attempt leaves the tails alone. -/
theorem congr (h : Line config first trials topic env) (hready : Ready config moved next.disk)
    (hpartitions : moved.partitions = topic.partitions) : Line config first trials moved next where
  ready := hready
  judged := h.judged
  chained := by
    rw [tails_congr hpartitions]
    exact h.chained
  behind := by
    rw [tails_congr hpartitions]
    exact h.behind
  once := h.once

/-- One more attempt has not become a commit. -/
theorem refused (h : Line config first trials topic env) {trial : Trial}
    (hjudged : Judged config trial) (hcommit : trial.commit? = none) :
    Line config first (trials ++ [trial]) topic env where
  ready := h.ready
  judged other hother := by
    rcases List.mem_append.1 hother with hother | hother
    · exact h.judged other hother
    · rw [List.mem_singleton.1 hother]
      exact hjudged
  chained number hnumber := by
    have hsame : (trials ++ [trial]).filterMap Trial.commit? = trials.filterMap Trial.commit? := by
      rw [List.filterMap_append, List.filterMap_cons_none hcommit, List.filterMap_nil,
        List.append_nil]
    rw [hsame]
    exact h.chained number hnumber
  behind other hother hsome := by
    rcases List.mem_append.1 hother with hother | hother
    · exact h.behind other hother hsome
    · rw [List.mem_singleton.1 hother, hcommit] at hsome
      simp at hsome
  once := by
    refine List.pairwise_append.2 ⟨h.once, List.pairwise_singleton _ _, ?_⟩
    intro other _ last hlast _ hsome
    rw [List.mem_singleton.1 hlast, hcommit] at hsome
    simp at hsome

/-- One more attempt has become a commit, and the tail of its partition has moved on. -/
theorem committed {trial : Trial} (h : Line config first trials trial.topic trial.env)
    {commit : RawCommit} (hjudged : Judged config trial) (hall : trial.IsAdmissible config)
    (hcommit : trial.commit? = some commit) (hexpected : commit.expected = trial.attempt.expected)
    (hactual : commit.actual.offset.toNat
      = trial.attempt.expected.offset.toNat + trial.attempt.size)
    (htail : trial.after.tails.get trial.number = commit.actual)
    (hothers : ∀ other, other < config.partitions → other ≠ trial.number →
      trial.after.tails.get other = trial.topic.tails.get other)
    (hready : Ready config trial.after trial.later.disk) :
    Line config first (trials ++ [trial]) trial.after trial.later := by
  have hnumber : commit.partition = trial.number := by
    rw [Commit.partition, ← htail]
    rfl
  have hsize : 0 < trial.attempt.size := List.length_pos_iff.2 hall.isWellFormed.entries_ne
  have hlt : trial.attempt.expected.offset < commit.actual.offset := by
    rw [UInt64.lt_iff_toNat_lt]
    omega
  have hgrown : ∀ number, number < config.partitions →
      (trial.topic.tails.get number).offset ≤ (trial.after.tails.get number).offset := by
    intro number hlt'
    by_cases hsame : number = trial.number
    · rw [hsame, htail, ← Trial.tail, ← hall.expected]
      exact UInt64.le_of_lt hlt
    · rw [hothers number hlt' hsame]
      exact UInt64.le_refl _
  refine ⟨hready, ?_, ?_, ?_, ?_⟩
  · intro other hother
    rcases List.mem_append.1 hother with hother | hother
    · exact h.judged other hother
    · rw [List.mem_singleton.1 hother]
      exact hjudged
  · intro number hlt'
    rw [List.filterMap_append, List.filterMap_cons_some hcommit, List.filterMap_nil,
      Partition.commitsIn_append, Partition.commitsIn_singleton, hnumber]
    have hchain := h.chained number hlt'
    split
    next hsame =>
      rw [hsame] at hchain ⊢
      rw [htail]
      refine hchain.concat ?_ (by rw [hexpected]; exact hlt)
      rw [hexpected, hall.expected, Trial.tail]
    next hsame =>
      rw [List.append_nil, hothers number hlt' hsame]
      exact hchain
  · intro other hother hsome
    rcases List.mem_append.1 hother with hother | hother
    · obtain ⟨hplace, hbehind⟩ := h.behind other hother hsome
      exact ⟨hplace, UInt64.lt_of_lt_of_le hbehind (hgrown _ hplace)⟩
    · rw [List.mem_singleton.1 hother, htail]
      exact ⟨hall.isWellFormed.lt, hlt⟩
  · refine List.pairwise_append.2 ⟨h.once, List.pairwise_singleton _ _, ?_⟩
    intro other hother last hlast hsome _ hsame
    rw [List.mem_singleton.1 hlast] at hsame
    -- the position of an earlier commit lies behind the tail that this one was expected at
    obtain ⟨-, hbehind⟩ := h.behind other hother hsome
    rw [Trial.number, hsame, hall.expected] at hbehind
    exact UInt64.lt_irrefl _ hbehind

/-- **One more attempt keeps the line.** -/
theorem append {attempt : RawAttempt} (h : Line config first trials topic env)
    (hdisk : Trial.Succeeds config ⟨attempt, topic, env⟩) :
    Line config first (trials ++ [⟨attempt, topic, env⟩]) (Trial.after ⟨attempt, topic, env⟩)
      (Trial.later ⟨attempt, topic, env⟩) := by
  have hjudged : Judged config ⟨attempt, topic, env⟩ := judged_of_ready h.ready hdisk
  cases hjudged with
  | committed hall hresult hexpected hactual htail hothers hready =>
    exact committed h (judged_of_ready h.ready hdisk) hall (Trial.commit?_of_result hresult)
      hexpected hactual htail hothers hready
  | refused hnot hcommit hafter hlater hconflict =>
    rw [hafter, hlater]
    exact h.refused (.refused hnot hcommit hafter hlater hconflict) hcommit

/-- Several attempts keep the line, one after another. -/
theorem appendAll (attempts : List RawAttempt) : ∀ {trials : List Trial} {topic : Topic}
    {env : Env}, Line config first trials topic env →
    (∀ trial ∈ trialsOf attempts topic env, trial.Succeeds config) →
    Line config first (trials ++ trialsOf attempts topic env)
      (Topic.appendAll attempts topic env).2.1 (Topic.appendAll attempts topic env).2.2 := by
  induction attempts with
  | nil =>
    intro trials topic env h _
    rw [trialsOf, List.append_nil]
    exact h
  | cons attempt later ih =>
    intro trials topic env h hdisk
    have hone := h.append (hdisk _ List.mem_cons_self)
    have hmore := ih hone fun trial htrial => hdisk trial (List.mem_cons_of_mem _ htrial)
    rw [List.append_assoc] at hmore
    exact hmore

end Line

/-! ## Races -/

/-- A topic that writers race on, and all units of attempts so far. -/
structure Race where
  topic : Topic
  env : Env
  batches : List Batch := []

namespace Race

/-- All attempts so far, in the order in which they were served. -/
def trials (race : Race) : List Trial := race.batches.flatMap Batch.trials

/-- All commits so far, in order. -/
def commits (race : Race) : List RawCommit := race.trials.filterMap Trial.commit?

/-- A unit of work that neither appends nor ends the topic. -/
def IsQuiet : Task → Prop
  | .append _ => False
  | .shutDown => False
  | _ => True

/-- A unit of attempts is served, and recorded. -/
def serve (race : Race) (attempts : List RawAttempt) : Race :=
  let batch : Batch := ⟨attempts, race.topic, race.env⟩
  ⟨batch.reached.1, batch.reached.2, race.batches ++ [batch]⟩

/-- Another unit of work is run. -/
def work (race : Race) (task : Task) : Race :=
  let reached := (perform task race.topic race.env).2
  { race with topic := reached.1, env := reached.2 }

/-- What can happen next. -/
inductive Step : Race → Race → Prop where
  /-- The actor serves the attempts of one writer. -/
  | served (race : Race) (attempts : List RawAttempt) : Step race (race.serve attempts)
  /-- The actor runs another unit of work. -/
  | worked (race : Race) {task : Task} (quiet : IsQuiet task) : Step race (race.work task)
  /-- A consumer does something to the queue. -/
  | queueChanged (race : Race) (change : Queue RawCommit → Queue RawCommit) :
      Step race { race with topic := { race.topic with queue := change race.topic.queue } }
  /-- Something happens elsewhere: time goes by, identifiers are used, other files change. -/
  | elsewhere (race : Race) (env : Env)
      (files : ∀ p ∈ race.topic.partitions, ∀ file, p.handle = some (.file file) →
        env.disk.contents[file]? = race.env.disk.contents[file]?) :
      Step race { race with env }

/-- What a race on a topic can come to. -/
inductive Reached (topic : Topic) (env : Env) : Race → Prop where
  | start : Reached topic env { topic, env }
  | step {race next : Race} (h : Reached topic env race) (hstep : Step race next) :
      Reached topic env next

variable {race next : Race} {task : Task}

theorem trials_serve (race : Race) (attempts : List RawAttempt) :
    (race.serve attempts).trials = race.trials ++ trialsOf attempts race.topic race.env := by
  rw [trials, serve, List.flatMap_append, List.flatMap_singleton]
  rfl

/-- Work that neither appends nor ends the topic leaves partitions and files alone. -/
theorem perform_of_isQuiet (h : IsQuiet task) (topic : Topic) (env : Env) :
    (perform task topic env).2.1.partitions = topic.partitions ∧
      (perform task topic env).2.1.maxEntryBytes = topic.maxEntryBytes ∧
      (perform task topic env).2.2 = env := by
  cases task with
  | append attempts => exact absurd h id
  | shutDown => exact absurd h id
  | publish results backlog =>
    have honly := resumePublishing_only topic backlog
    refine ⟨?_, ?_, rfl⟩
    · show (topic.resumePublishing backlog).2.partitions = _
      rw [honly]
    · show (topic.resumePublishing backlog).2.maxEntryBytes = _
      rw [honly]
  | tails => exact ⟨rfl, rfl, rfl⟩
  | register => exact ⟨rfl, rfl, rfl⟩

/-- Publishing what a unit has committed leaves partitions and files alone. -/
theorem reached_of_batch (batch : Batch) :
    let all := Topic.appendAll batch.attempts batch.topic batch.env
    batch.reached.1.partitions = all.2.1.partitions ∧
      batch.reached.1.maxEntryBytes = all.2.1.maxEntryBytes ∧ batch.reached.2 = all.2.2 := by
  have honly := publish_only (Topic.appendAll batch.attempts batch.topic batch.env).2.1
    (commitsOf (Topic.appendAll batch.attempts batch.topic batch.env).1)
  have hpartitions := congrArg Topic.partitions honly
  have hmax := congrArg Topic.maxEntryBytes honly
  exact ⟨hpartitions, hmax, rfl⟩

/-- A bounded partition counts on its own file only. -/
theorem ready_of_files {disk after : Disk} (h : Ready config topic disk)
    (hfiles : ∀ p ∈ topic.partitions, ∀ file, p.handle = some (.file file) →
      after.contents[file]? = disk.contents[file]?) : Ready config topic after := by
  refine ⟨h.maxEntryBytes, h.numbers_eq, h.handle, fun p hp => ?_⟩
  have hbounded := h.bounded p hp
  refine ⟨hbounded.tailOffset_le, hbounded.tailBytes_le, fun file hopen => ?_⟩
  obtain ⟨hlt, hlength⟩ := hbounded.file file hopen
  have hsame := hfiles p hp file hopen
  rw [Array.getElem?_eq_getElem hlt] at hsame
  obtain ⟨hafter, -⟩ := Array.getElem?_eq_some_iff.1 hsame
  refine ⟨hafter, ?_⟩
  rw [Disk.content, Array.getD_eq_getD_getElem?, hsame, ← Array.getElem?_eq_getElem hlt,
    ← Array.getD_eq_getD_getElem?]
  exact hlength

/-- What happens in a race keeps the line. -/
theorem line_step (h : Line config first race.trials race.topic race.env)
    (hstep : Step race next) (hdisk : ∀ trial ∈ next.trials, trial.Succeeds config) :
    Line config first next.trials next.topic next.env := by
  cases hstep with
  | served attempts =>
    rw [trials_serve] at hdisk ⊢
    have hall := h.appendAll attempts fun trial htrial =>
      hdisk trial (List.mem_append_right _ htrial)
    obtain ⟨hpartitions, hmax, henv⟩ := reached_of_batch ⟨attempts, race.topic, race.env⟩
    refine hall.congr ?_ hpartitions
    have hready := hall.ready.of_partitions hpartitions hmax
    rwa [← henv] at hready
  | worked hquiet =>
    obtain ⟨hpartitions, hmax, henv⟩ := perform_of_isQuiet hquiet race.topic race.env
    refine h.congr ?_ hpartitions
    show Ready config _ (perform _ race.topic race.env).2.2.disk
    rw [henv]
    exact h.ready.of_partitions hpartitions hmax
  | queueChanged change => exact h.congr (h.ready.of_partitions rfl rfl) rfl
  | elsewhere env hfiles => exact h.congr (ready_of_files h.ready hfiles) rfl

/-- What a race has come to is a line of attempts. -/
theorem Reached.line (h : Reached first env race) (hfirst : Ready config first env.disk)
    (hdisk : ∀ trial ∈ race.trials, trial.Succeeds config) :
    Line config first race.trials race.topic race.env := by
  induction h with
  | start => exact .start hfirst
  | @step race next _ hstep ih =>
    refine line_step (ih fun trial htrial => hdisk trial ?_) hstep hdisk
    cases hstep with
    | served attempts =>
      rw [trials_serve]
      exact List.mem_append_left _ htrial
    | worked => exact htrial
    | queueChanged => exact htrial
    | elsewhere => exact htrial

/-- What optimistic concurrency promises to writers that race on a topic. -/
structure IsLinear (config : Config) (first : Topic) (race : Race) : Prop where
  /-- An attempt is committed if and only if it has all that it needs. -/
  committed_iff : ∀ trial ∈ race.trials, trial.commit?.isSome ↔ trial.IsAdmissible config
  /-- A commit ends as many entries further on as it has, and the tail is there then. No other tail
  has moved. -/
  moves : ∀ trial ∈ race.trials, ∀ commit, trial.commit? = some commit →
    commit.expected = trial.attempt.expected ∧
      commit.actual.offset.toNat
        = trial.attempt.expected.offset.toNat + trial.attempt.size ∧
      trial.after.tails.get trial.number = commit.actual ∧
      ∀ other, other < config.partitions → other ≠ trial.number →
        trial.after.tails.get other = trial.topic.tails.get other
  /-- A well-formed attempt that misses the tail is told the tail. -/
  conflict : ∀ trial ∈ race.trials, IsWellFormed config trial.attempt →
    trial.attempt.expected ≠ trial.tail →
    trial.result = .ok (.conflict trial.attempt.expected trial.tail)
  /-- An attempt that is not committed leaves indexes, tails, queue and files as they were. -/
  unchanged : ∀ trial ∈ race.trials, trial.commit? = none →
    trial.after = trial.topic ∧ trial.later = trial.env
  /-- Nor does it change anything that its unit publishes: without it, the unit would have left the
  same topic, and the same commits to be published. -/
  unseen : ∀ batch ∈ race.batches, ∃ backlog,
    perform (.append batch.attempts) batch.topic batch.env
        = (published (batch.trials.map Trial.result) backlog, batch.reached) ∧
      perform (.append (batch.won.map Trial.attempt)) batch.topic batch.env
        = (published (batch.won.map Trial.result) backlog, batch.reached)
  /-- The commits of a partition lead from the tail that it had at first to the tail of now. -/
  chained : ∀ number, number < config.partitions →
    Chained (first.tails.get number) (commitsIn race.commits number) (race.topic.tails.get number)
  /-- Of attempts that expect the same position, one is committed at most. -/
  once : race.trials.Pairwise fun trial later =>
    trial.commit?.isSome → later.commit?.isSome → trial.attempt.expected ≠ later.attempt.expected

theorem isLinear_of_line (h : Line config first race.trials race.topic race.env) :
    race.IsLinear config first where
  committed_iff trial htrial := by
    cases h.judged trial htrial with
    | committed hall hresult =>
      exact iff_of_true (by simp [Trial.commit?_of_result hresult]) hall
    | refused hnot hcommit => exact iff_of_false (by simp [hcommit]) hnot
  moves trial htrial commit hcommit := by
    cases h.judged trial htrial with
    | committed _ hresult hexpected hactual htail hothers =>
      rw [Trial.commit?_of_result hresult] at hcommit
      obtain rfl := Option.some.inj hcommit
      exact ⟨hexpected, hactual, htail, hothers⟩
    | refused _ hnone =>
      rw [hnone] at hcommit
      simp at hcommit
  conflict trial htrial hformed hmissed := by
    cases h.judged trial htrial with
    | committed hall => exact absurd hall.expected hmissed
    | refused _ _ _ _ hconflict => exact hconflict hformed hmissed
  unchanged trial htrial hnone := (h.judged trial htrial).unchanged hnone
  unseen batch hbatch := perform_won batch fun trial htrial hnone =>
    (h.judged trial (List.mem_flatMap.2 ⟨batch, hbatch, htrial⟩)).unchanged hnone
  chained := h.chained
  once := h.once

/-- **Optimistic concurrency is linear for each partition, and refusals change nothing.** This is
true of every course of attempts on every topic that has been recovered, as long as no write fails.
A channel that may not append refuses attempts before they reach a topic. -/
theorem racing_attempts_are_linear {settings : Config} {root : Path} {name : String} {here : Nat}
    {disk : Disk} {first : Topic} {env : Env} {race : Race}
    (hroot : disk.follow (.directory top) root.segments = .ok (.directory here))
    (hsound : disk.Sound) (hreliable : disk.Reliable)
    (hrecover : recover settings root name disk = (.ok first, env.disk))
    (hrace : Reached first env race) (hdisk : ∀ trial ∈ race.trials, trial.Succeeds settings) :
    race.IsLinear settings first ∧
      ∀ channel : Channel, channel.config.openFlags.contains .append = false →
        ∀ attempts, channel.submitAppend name attempts race.env
          = (.error (.invalidOperation .withoutAppend), channel, race.env) := by
  have hready := recover_ready hroot hsound hreliable hrecover
  refine ⟨isLinear_of_line (hrace.line hready hdisk), fun channel hreadOnly attempts => ?_⟩
  unfold Channel.submitAppend Channel.checkWritable
  rw [hreadOnly]
  rfl

/-- Two writers that expect the same tail of a topic on a new disk: the first is committed, and the
second is not. -/
theorem racing_attempts_are_linear_of_two_writers :
    ∃ (first : Topic) (race : Race), race.IsLinear {} first ∧
      (race.trials.map fun trial => trial.result.toOption.map Outcome.isCommitted)
        = [some true, some false] := by
  let winner : RawAttempt := { key := [107], entries := [[118]], expected := .origin 0 }
  let loser : RawAttempt := { key := [107], entries := [[119], [120]], expected := .origin 0 }
  have hcomputed : ((recover {} ⟨["", ""]⟩ "t" {}).1.toOption.map fun topic =>
      (appendAll [winner, loser] topic { disk := (recover {} ⟨["", ""]⟩ "t" {}).2 }).1.map
        fun result => result.toOption.map Outcome.isCommitted)
      = some [some true, some false] := by decide +kernel
  have hsound : ({} : Disk).Sound := Disk.sound_new
  have hreliable : ({} : Disk).Reliable := by simp [Disk.Reliable]
  rcases hrun : recover {} ⟨["", ""]⟩ "t" {} with ⟨result, disk⟩
  rw [hrun] at hcomputed
  cases result with
  | error failure => simp [Except.toOption] at hcomputed
  | ok first =>
    let start : Race := { topic := first, env := { disk } }
    have hresults := map_result_trialsOf [winner, loser] first { disk }
    have hanswers : ((appendAll [winner, loser] first { disk }).1.map
        fun result => result.toOption.map Outcome.isCommitted) = [some true, some false] :=
      Option.some.inj hcomputed
    have hsucceeds := succeeds_of_results [winner, loser] first { disk }
      (recover_ready rfl hsound hreliable hrun) fun result hresult failure path hfailed => by
        have hmem := List.mem_map_of_mem (f := fun result : Except LogError RawOutcome =>
          result.toOption.map Outcome.isCommitted) hresult
        rw [hanswers, hfailed] at hmem
        simp [Except.toOption] at hmem
    have hlinear := racing_attempts_are_linear rfl hsound hreliable hrun
      (.step .start (.served start [winner, loser])) (by rw [trials_serve]; exact hsucceeds)
    refine ⟨first, start.serve [winner, loser], hlinear.1, ?_⟩
    rw [← hanswers, ← hresults, List.map_map]
    rfl

end Race

end CommitLog.Topic
