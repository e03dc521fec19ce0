import CommitLog.Proofs.Batching.Forecast
import CommitLog.Proofs.Batching.Progress
import CommitLog.Proofs.Handover.Seamless
import CommitLog.Proofs.Topic.New

/-!
# A batch is its attempts one by one

The same attempts may be sent to a topic in one unit, or each in a unit of its own. In one unit all
commits are published at the end, in batches of at most the capacity of the queue; one by one each
is published before the next attempt is appended. But for stamps the writer is given the same
results either way, the files and indexes are the same, and every live consumer is given the same
commits in the same order: `batch_eq_one_by_one`. However small the queue, all of it comes to an end
if consumers go on reading.
-/

namespace CommitLog.Batching

open CommitLog.Disk (Place)
open CommitLog.Handover (Advances Begins InOrder Occurs Run Worker)
open CommitLog.Partition (encodeAll)
open CommitLog.Queue (ConsumerId)
open CommitLog.Topic (Backlog Folder appendAll commitsOf filePlace perform published)

variable {config : Config} {root : Path} {folder : Folder} {home : Place} {run : Run Unit}
  {hall batch singles : Hall} {units others : List (List RawAttempt)} {consumer : ConsumerId}

/-! ## What is done in one go -/

theorem leads_advance (hall : Hall) :
    Leads folder hall
      { hall with
        worker := (hall.worker.advance hall.topic hall.env).1
        topic := (hall.worker.advance hall.topic hall.env).2.1
        env := (hall.worker.advance hall.topic hall.env).2.2 } := by
  have hstep : Step folder hall hall.work := .worked
  unfold Hall.work at hstep
  -- a worker that has nothing to do, or only an answer to give, stays where it is
  split at hstep
  next hworker =>
    rw [hworker]
    simp only [Worker.advance]
    rw [← hworker]
  next hworker =>
    rw [hworker]
    simp only [Worker.advance]
    rw [← hworker]
  next => exact .single hstep

/-- The worker goes on while nothing else comes in between. -/
theorem leads_of_advances {last : Run Unit} (h : Advances hall.run last) :
    Leads folder hall { hall with worker := last.worker, topic := last.topic, env := last.env } := by
  induction h with
  | refl => exact .refl
  | tail _ hstep ih =>
    subst hstep
    exact ih.trans (leads_advance _)

/-- What the actor of a topic does in one go is a row of steps. -/
structure Performs (folder : Folder) (hall : Hall) : Prop where
  append : ∀ {unit : List RawAttempt} {later : List (List RawAttempt)}, hall.worker = .idle →
    hall.units = unit :: later → ∃ results backlog last env,
      perform (.append unit) hall.topic hall.env = (published results backlog, last, env) ∧
        Leads folder hall
          { hall with
            worker := .ofBacklog results backlog
            topic := last
            env
            units := later }
  publish : ∀ {results : List (Except LogError RawOutcome)} {backlog : Backlog},
    hall.worker = .held results backlog → ∃ rest last,
      perform (.publish results backlog) hall.topic hall.env
          = (published results rest, last, hall.env) ∧
        Leads folder hall { hall with worker := .ofBacklog results rest, topic := last }

/-- **A unit that the actor performs is a row of steps**, and so is going on with one. -/
theorem performs (hall : Hall) : Performs folder hall where
  append := by
    intro unit later hidle hunits
    rcases hall' : appendAll unit hall.topic hall.env with ⟨results, topic, env⟩
    rcases hpublish : topic.publish (commitsOf results) with ⟨backlog, last⟩
    have hsent : Leads folder hall { hall with worker := .appending unit [], units := later } := by
      have hstep : Step folder hall hall.work := .worked
      simp only [Hall.work, hidle, hunits] at hstep
      exact .single hstep
    refine ⟨results, backlog, last, env, by simp only [perform, hall', hpublish], hsent.trans ?_⟩
    have hadvances : Advances { hall.run with worker := .appending unit [] }
        { hall.run with worker := .ofBacklog results backlog, topic := last, env } :=
      Handover.advances_append unit hall' hpublish
    exact leads_of_advances
      (show Advances ({ hall with worker := .appending unit [], units := later } : Hall).run _
        from hadvances)
  publish := by
    intro results backlog hheld
    rcases hresume : hall.topic.resumePublishing backlog with ⟨rest, last⟩
    refine ⟨rest, last, by simp only [perform, hresume], ?_⟩
    have hadvances : Advances hall.run
        { hall.run with worker := .ofBacklog results rest, topic := last } :=
      Handover.advances_resume hheld hresume
    exact leads_of_advances hadvances

/-! ## Where a writer begins -/

/-- A topic in service that has nothing under way, at any point of its life. -/
structure AtRest (config : Config) (root : Path) (folder : Folder) (home : Place) (run : Run Unit) :
    Prop where
  idle : run.worker = .idle
  occurred : ∃ begin, Begins config root folder home () begin ∧ Occurs folder begin run

theorem AtRest.inOrder (h : AtRest config root folder home run) :
    InOrder config folder run ∧ Fluent run := by
  obtain ⟨-, begin, hbegins, hoccurs⟩ := h
  induction hoccurs with
  | refl =>
    obtain ⟨life, -, -, -, settings, disk, -, -, -, hrecover, -⟩ := hbegins.opened
    refine ⟨Handover.inOrder_begins hbegins, ?_, ?_⟩
    · rw [Topic.queue_of_recover hrecover]
      exact Queue.drainable_ofFanout _
    · intro results backlog hheld
      rw [hbegins.worker] at hheld
      cases hheld
  | tail _ hstep ih =>
    obtain ⟨hinOrder, hfluent⟩ := ih
    exact ⟨(Handover.happens_inOrder hinOrder hstep).1, fluent_happens hinOrder hfluent hstep⟩

/-- The units come to their end. -/
structure Ends (folder : Folder) (run : Run Unit) (units : List (List RawAttempt)) (hall : Hall) :
    Prop where
  leads : Leads folder (.ofRun run units) hall
  done : hall.Done

section AtRest

variable (h : AtRest config root folder home run)

include h

theorem orderly_ofRun (units : List (List RawAttempt)) :
    Orderly config folder (.ofRun run units) := by
  obtain ⟨hinOrder, hfluent⟩ := h.inOrder
  have hcommits : (Hall.ofRun run units).run.commits = run.commits := by
    show run.past ++ commitsOf [] ++ run.worker.commits = run.past ++ run.worker.commits
    rw [show commitsOf [] = [] from rfl, List.append_nil]
  refine ⟨⟨?_, hinOrder.queue, hinOrder.ready⟩, hfluent.drainable, hfluent.held⟩
  rw [hcommits]
  exact hinOrder.agrees

theorem forecast_ofRun (units : List (List RawAttempt)) :
    (Hall.ofRun run units).forecast = (appendAll units.flatten run.topic run.env).1 ∧
      (Hall.ofRun run units).outlook = (appendAll units.flatten run.topic run.env).2.1 := by
  have hleft : (Hall.ofRun run units).left = units.flatten := by
    show leftTo run.worker ++ units.flatten = _
    rw [h.idle]
    rfl
  have hmade : (Hall.ofRun run units).made = [] := by
    show [] ++ madeBy run.worker = []
    rw [h.idle]
    rfl
  unfold Hall.forecast Hall.outlook
  rw [hleft, hmade]
  exact ⟨rfl, rfl⟩

/-- Units come to the results, and to the indexes, that their attempts have in a row. -/
theorem ends_alike (hends : Ends folder run units hall) :
    hall.answers.map unstampedResult
        = (appendAll units.flatten run.topic run.env).1.map unstampedResult ∧
      Alike (appendAll units.flatten run.topic run.env).2.1 hall.topic := by
  obtain ⟨hforecast, houtlook⟩ := foreseen_leads (orderly_ofRun h units) hends.leads
  rw [hends.done.forecast_eq, (forecast_ofRun h units).1] at hforecast
  rw [hends.done.outlook_eq, (forecast_ofRun h units).2] at houtlook
  exact ⟨hforecast, houtlook⟩

omit h in
/-- The commits of a topic when units have come to their end. -/
theorem commits_of_ends (hends : Ends folder run units hall) :
    hall.run.commits = run.past ++ commitsOf hall.answers := by
  have hbefore : hall.before = run.past := before_of_leads hends.leads
  show hall.before ++ commitsOf hall.answers ++ hall.worker.commits = _
  rw [hends.done.worker_eq, hbefore]
  exact List.append_nil _

/-- The file of a partition holds the frames that were there, and those of the units behind them. -/
theorem stores_of_ends (hends : Ends folder run units hall) {number : UInt32}
    (hnumber : number < config.partitions) :
    hall.env.disk.Stores (filePlace folder.directory number)
      (encodeAll (framesIn (run.past ++ commitsOf hall.answers) number)) := by
  have hagrees := ((orderly_ofRun h units).leads hends.leads).inOrder.agrees
  rw [commits_of_ends hends] at hagrees
  obtain ⟨p, -, -, hholds⟩ := hagrees.holds.exists_partition hnumber
  exact hholds.stores

/-- **A consumer is given what it had in front of it, and the commits of the units behind that.** -/
theorem received_of_ends (hends : Ends folder run units hall)
    (hconsumer : run.topic.queue.IsConsumer consumer) :
    hall.heard consumer ++ hall.topic.queue.unread consumer
      = run.topic.queue.unread consumer ++ commitsOf hall.answers := by
  have hstart : (Hall.ofRun run units).topic.queue.IsConsumer consumer := hconsumer
  obtain ⟨more, hcommits, hline⟩ := (hears_leads (orderly_ofRun h units) hends.leads hstart).received
  have hbegan : (Hall.ofRun run units).run.commits = run.past := by
    show run.past ++ commitsOf [] ++ run.worker.commits = _
    rw [h.idle, show commitsOf [] = [] from rfl]
    simp only [Worker.commits, List.append_nil]
  have hfirst : (Hall.ofRun run units).run.line consumer = run.topic.queue.unread consumer := by
    show run.topic.queue.unread consumer ++ run.worker.owed run.topic.queue consumer = _
    rw [h.idle]
    exact List.append_nil _
  have hlast : hall.run.line consumer = hall.topic.queue.unread consumer := by
    show hall.topic.queue.unread consumer ++ hall.worker.owed hall.topic.queue consumer = _
    rw [hends.done.worker_eq]
    exact List.append_nil _
  rw [commits_of_ends hends, hbegan] at hcommits
  rw [List.append_cancel_left hcommits, ← hfirst, ← hlast, hline]
  rfl

end AtRest

/-! ## A batch, and its attempts one by one -/

/-- What has come of some attempts is the same but for the stamps of their commits. -/
structure SameButStamps (config : Config) (folder : Folder) (run : Run Unit) (batch singles : Hall) :
    Prop where
  results : batch.answers.map unstampedResult = singles.answers.map unstampedResult
  indexes : batch.topic.partitions = singles.topic.partitions
  tails : batch.topic.tails = singles.topic.tails
  files : ∀ number, number < config.partitions → ∃ frames others,
    batch.env.disk.Stores (filePlace folder.directory number) (encodeAll frames) ∧
      singles.env.disk.Stores (filePlace folder.directory number) (encodeAll others) ∧
      frames.map Frame.unstamped = others.map Frame.unstamped
  received : ∀ consumer, run.topic.queue.IsConsumer consumer →
    (batch.heard consumer ++ batch.topic.queue.unread consumer).map Commit.unstamped
      = (singles.heard consumer ++ singles.topic.queue.unread consumer).map Commit.unstamped

/-- **How attempts are cut into units makes no difference** but for stamps. -/
theorem same_of_flatten (h : AtRest config root folder home run)
    (hsame : units.flatten = others.flatten) (hbatch : Ends folder run units batch)
    (hsingles : Ends folder run others singles) : SameButStamps config folder run batch singles := by
  obtain ⟨hresults, halike⟩ := ends_alike h hbatch
  obtain ⟨hresults', halike'⟩ := ends_alike h hsingles
  rw [hsame] at hresults halike
  have hanswers : batch.answers.map unstampedResult = singles.answers.map unstampedResult :=
    hresults.trans hresults'.symm
  have hpartitions : batch.topic.partitions = singles.topic.partitions :=
    (halike.symm.trans halike').partitions_eq
  have hcommits : (commitsOf batch.answers).map Commit.unstamped
      = (commitsOf singles.answers).map Commit.unstamped := by
    rw [← commitsOf_unstamped, ← commitsOf_unstamped, hanswers]
  refine ⟨hanswers, hpartitions, by unfold Topic.tails; rw [hpartitions], ?_, ?_⟩
  · intro number hnumber
    refine ⟨_, _, stores_of_ends h hbatch hnumber, stores_of_ends h hsingles hnumber, ?_⟩
    rw [← framesIn_unstamped, ← framesIn_unstamped, List.map_append, List.map_append, hcommits]
  · intro consumer hconsumer
    rw [received_of_ends h hbatch hconsumer, received_of_ends h hsingles hconsumer,
      List.map_append, List.map_append, hcommits]

/-- **A batch is its attempts one by one.** The results, the files and indexes, and what live
consumers are given are the same but for stamps; what they are given are the commits in order, each
once; and where consumers go on reading it comes to that, however small the queue. What the actor
does in one go is among the runs that this is about. -/
theorem batch_eq_one_by_one (h : AtRest config root folder home run) (attempts : List RawAttempt) :
    (∀ batch singles, Ends folder run [attempts] batch →
      Ends folder run (attempts.map fun attempt => [attempt]) singles →
      SameButStamps config folder run batch singles) ∧
    ∀ units, units = [attempts] ∨ units = attempts.map (fun attempt => [attempt]) →
      (∀ hall, Ends folder run units hall → ∀ consumer, run.topic.queue.IsConsumer consumer →
        hall.heard consumer ++ hall.topic.queue.unread consumer
          = run.topic.queue.unread consumer ++ commitsOf hall.answers) ∧
      (∃ runs, Fair folder runs ∧ runs 0 = .ofRun run units) ∧
      (∀ runs, Fair folder runs → runs 0 = .ofRun run units → ∃ n,
        Ends folder run units (runs n) ∧ ∀ consumer, run.topic.queue.IsConsumer consumer →
          (runs n).topic.queue.unread consumer = []) ∧
      ∀ hall, Leads folder (.ofRun run units) hall → Performs folder hall := by
  have hflatten : [attempts].flatten = (attempts.map fun attempt => [attempt]).flatten := by
    rw [List.flatten_cons, List.flatten_nil, List.append_nil, ← List.flatMap_def,
      List.flatMap_singleton']
  refine ⟨fun batch singles hbatch hsingles => same_of_flatten h hflatten hbatch hsingles, ?_⟩
  intro units _
  refine ⟨fun hall hends consumer => received_of_ends h hends, exists_fair folder _, ?_,
    fun hall _ => performs hall⟩
  intro runs hfair hstart
  have horderly := orderly_ofRun h units
  rw [← hstart] at horderly
  obtain ⟨n, hdone, hread⟩ := hfair.settles horderly
  have hleads := hfair.leads n
  rw [hstart] at hleads hread
  exact ⟨n, ⟨hleads, hdone⟩, hread⟩

/-- More commits than the ring has slots, to two partitions, with a conflict and a refusal among
them. -/
theorem batch_eq_one_by_one_of_small_ring :
    let config : Config := { partitions := 2, fanout := .ring 2 }
    let folder : Folder := ⟨Path.child ⟨["", ""]⟩ "t", 1⟩
    let attempts : List RawAttempt :=
      [{ key := [107], entries := [[1]], expected := .origin 0 },
        { key := [107], entries := [[2]], expected := ⟨0, 1⟩ },
        { key := [107], entries := [[3], [4]], expected := .origin 1 },
        { key := [107], entries := [[5]], expected := .origin 0 },
        { key := [107], entries := [], expected := ⟨0, 2⟩ },
        { key := [107], entries := [[6]], expected := ⟨1, 2⟩ }]
    ∃ (run : Run Unit) (batch singles : Hall),
      AtRest config ⟨["", ""]⟩ folder ⟨0, "t"⟩ run ∧ run.topic.queue.capacity? = some 2 ∧
        run.topic.queue.IsConsumer 0 ∧ Ends folder run [attempts] batch ∧
        Ends folder run (attempts.map fun attempt => [attempt]) singles ∧
        SameButStamps config folder run batch singles ∧
        (commitsOf batch.answers).length = 4 ∧ batch.heard 0 = commitsOf batch.answers ∧
        singles.heard 0 = commitsOf singles.answers := by
  intro config folder attempts
  have hcomputed : (Topic.recover config ⟨["", ""]⟩ "t" {}).2.entryAt? ⟨0, "t"⟩
        = some (.directory 1) ∧
      (Topic.recover config ⟨["", ""]⟩ "t" {}).1.toOption.map (fun topic =>
        (commitsOf (appendAll attempts { topic with queue := topic.queue.subscribe.2 }
          { disk := (Topic.recover config ⟨["", ""]⟩ "t" {}).2 }).1).length) = some 4 := by
    decide +kernel
  have hfresh : Topic.Fresh ⟨["", ""]⟩ ⟨0, "t"⟩ {} :=
    ⟨by decide, rfl, rfl, rfl, Disk.entryAt?_new _, Disk.sound_new, by simp [Disk.Reliable]⟩
  rcases hrecover : Topic.recover config ⟨["", ""]⟩ "t" {} with ⟨result, disk⟩
  rw [hrecover] at hcomputed
  obtain ⟨hentry, hcount⟩ := hcomputed
  cases result with
  | error failure => simp [Except.toOption] at hcount
  | ok opened =>
    let begin : Run Unit :=
      { topic := opened, env := { disk }, past := [], phase := .unregistered () }
    let start : Run Unit :=
      { begin with topic := { opened with queue := opened.queue.subscribe.2 } }
    have hbegins : Begins config ⟨["", ""]⟩ folder ⟨0, "t"⟩ () begin :=
      ⟨rfl, rfl, rfl, hentry, {}, .fresh hfresh, rfl, rfl, config, disk, by decide, rfl, rfl,
        hrecover, rfl⟩
    have hrest : AtRest config ⟨["", ""]⟩ folder ⟨0, "t"⟩ start :=
      ⟨rfl, begin, hbegins, .single .otherRegistered⟩
    have hqueue : opened.queue = .ofFanout (.ring 2) := Topic.queue_of_recover hrecover
    have hconsumer : start.topic.queue.IsConsumer 0 := by
      show opened.queue.subscribe.2.IsConsumer 0
      rw [hqueue]
      exact rfl
    have hunread : start.topic.queue.unread 0 = [] := by
      show opened.queue.subscribe.2.unread 0 = []
      rw [hqueue]
      rfl
    obtain ⟨hsame, hunits⟩ := batch_eq_one_by_one hrest attempts
    obtain ⟨hgiven, ⟨runs, hfair, hstart⟩, hends, -⟩ := hunits [attempts] (Or.inl rfl)
    obtain ⟨n, hbatch, hread⟩ := hends runs hfair hstart
    obtain ⟨hgiven', ⟨others, hfair', hstart'⟩, hends', -⟩ := hunits _ (Or.inr rfl)
    obtain ⟨m, hsingles, hread'⟩ := hends' others hfair' hstart'
    have hheard := hgiven _ hbatch 0 hconsumer
    have hheard' := hgiven' _ hsingles 0 hconsumer
    rw [hread 0 hconsumer, hunread, List.append_nil, List.nil_append] at hheard
    rw [hread' 0 hconsumer, hunread, List.append_nil, List.nil_append] at hheard'
    refine ⟨start, runs n, others m, hrest, ?_, hconsumer, hbatch, hsingles,
      hsame _ _ hbatch hsingles, ?_, hheard, hheard'⟩
    · show opened.queue.subscribe.2.capacity? = some 2
      rw [hqueue]
      rfl
    · have hanswers := congrArg commitsOf (ends_alike hrest hbatch).1
      rw [commitsOf_unstamped, commitsOf_unstamped] at hanswers
      have hlength := congrArg List.length hanswers
      rw [List.length_map, List.length_map] at hlength
      exact hlength.trans (Option.some.inj hcount)

end CommitLog.Batching
