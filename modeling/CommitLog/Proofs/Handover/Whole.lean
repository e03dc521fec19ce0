import CommitLog.Proofs.Handover.Run
import Mathlib.Logic.Relation

/-!
# What is done in one go

The pieces of a run make up what the actor, the replay and a round of the delivery do. A unit of
attempts that is performed, a topic that is replayed and a round that drains the queue are rows of
steps in which nothing else comes in between, so whatever holds at every point of every run holds
where they begin and where they end.
-/

namespace CommitLog.Handover

open CommitLog.Topic (Backlog Folder appendAll commitsOf perform publishBatches published)

variable {σ : Type} {config : Config} {folder : Folder} {subscriber : Subscriber σ}
  {run : Run σ} {topic last : Topic} {env : Env} {results made : List (Except LogError RawOutcome)}
  {tail : HotTail} {checkpoint stop : Revisions} {follower after : Follower σ}
  {number : UInt32} {numbers later : List UInt32}

/-- One point of a run is followed by another. -/
abbrev Leads (config : Config) (folder : Folder) (subscriber : Subscriber σ) :
    Run σ → Run σ → Prop := Relation.ReflTransGen (Step config folder subscriber)

theorem Reachable.leads {root : Path} {home : Disk.Place} {state : σ} {next : Run σ}
    (h : Reachable config root folder home subscriber state run)
    (hleads : Leads config folder subscriber run next) :
    Reachable config root folder home subscriber state next := by
  induction hleads with
  | refl => exact h
  | tail _ hstep ih => exact ih.step hstep

/-! ## Units of work -/

/-- Where the worker is when a unit has come as far as it can. -/
def Worker.ofBacklog (results : List (Except LogError RawOutcome)) : Option Backlog → Worker
  | none => .publishing results []
  | some backlog => .held results backlog

/-- Things that happen one after another. -/
abbrev Occurs (folder : Folder) : Run σ → Run σ → Prop := Relation.ReflTransGen (Happens folder)

theorem Occurs.leads {next : Run σ} (h : Occurs folder run next) :
    Leads config folder subscriber run next :=
  Relation.ReflTransGen.mono (fun _ _ hstep => Step.happens hstep) _ _ h

/-- The worker goes on, and nothing else comes in between. -/
abbrev Advances : Run σ → Run σ → Prop := Relation.ReflTransGen fun run next =>
  next = { run with
    worker := (run.worker.advance run.topic run.env).1
    topic := (run.worker.advance run.topic run.env).2.1
    env := (run.worker.advance run.topic run.env).2.2 }

theorem Advances.occurs {next : Run σ} (h : Advances run next) : Occurs folder run next := by
  induction h with
  | refl => exact .refl
  | tail _ hstep ih =>
    rw [hstep]
    exact ih.tail .worked

theorem advances_worked (run : Run σ) {worker : Worker}
    (h : run.worker.advance run.topic run.env = (worker, topic, env)) :
    Advances run { run with worker, topic, env } := .single (by rw [h])

theorem advances_appendAll (attempts : List RawAttempt) :
    ∀ (run : Run σ) (made : List (Except LogError RawOutcome))
      {results : List (Except LogError RawOutcome)} {topic : Topic} {env : Env},
      appendAll attempts run.topic run.env = (results, topic, env) →
      Advances { run with worker := .appending attempts made }
        { run with worker := .appending [] (made ++ results), topic, env } := by
  induction attempts with
  | nil =>
    intro run made results topic env hall
    obtain ⟨rfl, rfl, rfl⟩ := hall
    rw [List.append_nil]
  | cons attempt rest ih =>
    intro run made results topic env hall
    unfold appendAll at hall
    rcases hone : run.topic.append attempt run.env with ⟨result, moved, reached⟩
    rcases hmore : appendAll rest moved reached with ⟨others, final, ended⟩
    simp only [hone, hmore] at hall
    obtain ⟨rfl, rfl, rfl⟩ := hall
    have hfirst : (Worker.appending (attempt :: rest) made).advance run.topic run.env
        = (.appending rest (made ++ [result]), moved, reached) := by
      simp only [Worker.advance, hone]
    have hrest := ih { run with topic := moved, env := reached } (made ++ [result]) hmore
    rw [List.append_assoc, List.singleton_append] at hrest
    exact (advances_worked { run with worker := _ } hfirst).trans hrest

theorem advances_publishBatches (batches : List (List RawCommit)) :
    ∀ (run : Run σ) {backlog : Option Backlog} {last : Topic},
      publishBatches batches run.topic = (backlog, last) →
      Advances { run with worker := .publishing results batches }
        { run with worker := .ofBacklog results backlog, topic := last } := by
  induction batches with
  | nil =>
    intro run backlog last hrun
    obtain ⟨rfl, rfl⟩ := hrun
    exact .refl
  | cons batch rest ih =>
    intro run backlog last hrun
    unfold publishBatches at hrun
    rcases hbatch : Topic.publishBatch run.topic.queue batch with ⟨progress, queue⟩
    have hone : (Worker.publishing results (batch :: rest)).advance run.topic run.env
        = ((Worker.afterBatch results rest run.topic (progress, queue)).1,
          (Worker.afterBatch results rest run.topic (progress, queue)).2, run.env) := by
      simp only [Worker.advance, hbatch]
    have hfirst : Advances
        { run with worker := .publishing results (batch :: rest) } _ := advances_worked _ hone
    rw [hbatch] at hrun
    cases progress with
    | published => exact hfirst.trans (ih { run with topic := Topic.wake _ } hrun)
    | rejected rejected =>
      obtain ⟨rfl, rfl⟩ := hrun
      exact hfirst
    | waiting publication =>
      obtain ⟨rfl, rfl⟩ := hrun
      exact hfirst

/-- What becomes of attempts that the worker has taken up. -/
theorem advances_append (attempts : List RawAttempt)
    (hall : appendAll attempts run.topic run.env = (results, topic, env))
    {backlog : Option Backlog} (hpublish : topic.publish (commitsOf results) = (backlog, last)) :
    Advances { run with worker := .appending attempts [] }
      { run with worker := .ofBacklog results backlog, topic := last, env } := by
  have happended : Advances { run with worker := .appending attempts [] }
      { run with worker := .appending [] results, topic, env } :=
    advances_appendAll attempts run [] hall
  have hcut : Advances
      { run with worker := .appending [] results, topic, env } _ := advances_worked _ rfl
  exact (happended.trans hcut).trans (advances_publishBatches _ { run with topic, env } hpublish)

/-- What becomes of a batch that waits. -/
theorem advances_resume {backlog : Backlog} (hheld : run.worker = .held results backlog)
    {rest : Option Backlog} (hresume : run.topic.resumePublishing backlog = (rest, last)) :
    Advances run { run with worker := .ofBacklog results rest, topic := last } := by
  rcases hbatch : run.topic.queue.resume backlog.publication with ⟨progress, queue⟩
  have hone : run.worker.advance run.topic run.env
      = ((Worker.afterBatch results backlog.later run.topic (progress, queue)).1,
        (Worker.afterBatch results backlog.later run.topic (progress, queue)).2, run.env) := by
    simp only [hheld, Worker.advance, hbatch]
  have hfirst : Advances run _ := advances_worked run hone
  unfold Topic.resumePublishing at hresume
  rw [hbatch] at hresume
  cases progress with
  | published =>
    exact hfirst.trans (advances_publishBatches _ { run with topic := Topic.wake _ } hresume)
  | rejected rejected =>
    obtain ⟨rfl, rfl⟩ := hresume
    exact hfirst
  | waiting publication =>
    obtain ⟨rfl, rfl⟩ := hresume
    exact hfirst

/-- A unit of attempts that is performed is a row of what can happen. -/
theorem occurs_append (attempts : List RawAttempt) (hidle : run.worker = .idle)
    (hall : appendAll attempts run.topic run.env = (results, topic, env))
    {backlog : Option Backlog} (hpublish : topic.publish (commitsOf results) = (backlog, last)) :
    perform (.append attempts) run.topic run.env = (published results backlog, last, env) ∧
      Occurs folder run
        { run with worker := .ofBacklog results backlog, topic := last, env } := by
  refine ⟨by simp only [perform, hall, hpublish], ?_⟩
  have hsubmitted : Occurs folder run
      { run with worker := .appending attempts [] } :=
    .single (.submitted attempts hidle)
  exact hsubmitted.trans (advances_append attempts hall hpublish).occurs

/-- So is going on with one that had to wait. -/
theorem occurs_resume {backlog : Backlog} (hheld : run.worker = .held results backlog)
    {rest : Option Backlog} (hresume : run.topic.resumePublishing backlog = (rest, last)) :
    perform (.publish results backlog) run.topic run.env
        = (published results rest, last, run.env) ∧
      Occurs folder run
        { run with worker := .ofBacklog results rest, topic := last } :=
  ⟨by simp only [perform, hresume], (advances_resume hheld hresume).occurs⟩

/-- **A unit of attempts that is performed is a row of steps.** -/
theorem leads_append (attempts : List RawAttempt) (hidle : run.worker = .idle)
    (hall : appendAll attempts run.topic run.env = (results, topic, env))
    {backlog : Option Backlog} (hpublish : topic.publish (commitsOf results) = (backlog, last)) :
    perform (.append attempts) run.topic run.env = (published results backlog, last, env) ∧
      Leads config folder subscriber run
        { run with worker := .ofBacklog results backlog, topic := last, env } := by
  obtain ⟨hperform, hoccurs⟩ := occurs_append attempts hidle hall hpublish
  exact ⟨hperform, hoccurs.leads⟩

/-- A unit of attempts that finds room for all its commits comes to its end. -/
theorem leads_answered (attempts : List RawAttempt) (hidle : run.worker = .idle)
    (hall : appendAll attempts run.topic run.env = (results, topic, env))
    (hpublish : topic.publish (commitsOf results) = (none, last)) :
    Leads config folder subscriber run
      { run with worker := .idle, topic := last, env, past := run.past ++ commitsOf results } :=
  (leads_append attempts hidle hall hpublish).2.tail (.happens (.finished rfl))

/-- **So is going on with one that had to wait.** -/
theorem leads_resume {backlog : Backlog} (hheld : run.worker = .held results backlog)
    {rest : Option Backlog} (hresume : run.topic.resumePublishing backlog = (rest, last)) :
    perform (.publish results backlog) run.topic run.env
        = (published results rest, last, run.env) ∧
      Leads config folder subscriber run
        { run with worker := .ofBacklog results rest, topic := last } := by
  obtain ⟨hperform, hoccurs⟩ := occurs_resume hheld hresume
  exact ⟨hperform, hoccurs.leads⟩

/-- **So is the unit that registers a consumer.** -/
theorem leads_register {state : σ} (hidle : run.worker = .idle)
    (hphase : run.phase = .unregistered state) :
    ∃ tail last, perform .register run.topic run.env
        = (.done (.registered tail.consumer tail.revisions), last, run.env) ∧
      Leads config folder subscriber run
        { run with topic := last, phase := .registered tail state } :=
  ⟨⟨run.topic.name, run.topic.queue.subscribe.1, run.topic.tails⟩, _, rfl,
    .single (.moves (.registered hphase hidle))⟩

/-! ## Replays -/

/-- What a replay reads of a topic. -/
def Run.read (run : Run σ) (start : Revision) : Except LogError (List RawCommit) :=
  run.topic.read run.env.disk start Replay.chunkSize

theorem leads_replayed {todo moved : Replaying}
    (hphase : run.phase = .replaying tail checkpoint todo follower)
    (h : todo.advance subscriber run.read tail.revisions follower = .ok (moved, after)) :
    Leads config folder subscriber run
      { run with phase := .replaying tail checkpoint moved after } := by
  have hstep : Step config folder subscriber run _ := .moves (.replayed hphase)
  rw [show (fun start => run.topic.read run.env.disk start Replay.chunkSize) = run.read from rfl,
    h] at hstep
  exact .single hstep

theorem leads_handAll (chunk : List RawCommit) (start : UInt64) (whole : Bool) :
    ∀ (run : Run σ) (follower : Follower σ) {after : Follower σ},
      run.phase = .replaying tail checkpoint (.handing number later start chunk whole) follower →
      Replay.handAll subscriber chunk follower = (.finished, after) →
      Leads config folder subscriber run
        { run with
          phase := .replaying tail checkpoint (.handing number later start [] whole) after } := by
  induction chunk with
  | nil =>
    intro run follower after hphase hrun
    obtain ⟨-, rfl⟩ := hrun
    rw [← hphase]
  | cons commit rest ih =>
    intro run follower after hphase hrun
    unfold Replay.handAll at hrun
    rcases hhandle : subscriber.handle commit follower.state with ⟨handled, state⟩
    rw [hhandle] at hrun
    cases handled with
    | taken =>
      refine (leads_replayed hphase ?_).trans (ih _ _ rfl hrun)
      simp only [Replaying.advance, hhandle]
    | refused error => simp at hrun
    | panicked => simp at hrun

/-- A chunk that was read is handed on. -/
theorem leads_handChunk {chunk : List RawCommit} {start : UInt64} {whole : Bool}
    (hphase : run.phase
      = .replaying tail checkpoint (.handing number later start chunk whole) follower)
    (hrun : Replay.handChunk subscriber chunk follower = (.ok (), after)) :
    Leads config folder subscriber run
      { run with
        phase := .replaying tail checkpoint
          (if whole = false ∨ (after.reached.get number).offset ≤ start then .between later
            else .between (number :: later)) after } := by
  unfold Replay.handChunk at hrun
  rcases hall : Replay.handAll subscriber chunk follower with ⟨handing, handed⟩
  rw [hall] at hrun
  cases handing with
  | finished =>
    refine (leads_handAll chunk start whole run follower hphase hall).trans ?_
    have hadvance : Replaying.advance subscriber run.read tail.revisions
        (.handing number later start [] whole) handed
          = .ok (if whole = false ∨ (after.reached.get number).offset ≤ start then .between later
            else .between (number :: later), after) := by
      simp only [Replaying.advance, show handed.saveNew subscriber = _ from hrun]
      split <;> rfl
    exact leads_replayed rfl hadvance
  | refused error =>
    simp only [Prod.mk.injEq] at hrun
    rcases hrun with ⟨hresult, -⟩
    cases hsave : (handed.save subscriber).1 with
    | error e =>
      rw [hsave] at hresult
      simp [bind, Except.bind] at hresult
    | ok _ =>
      rw [hsave] at hresult
      simp [bind, Except.bind] at hresult
  | panicked => simp at hrun

/-- A chunk is read and handed on. -/
theorem leads_chunk (run : Run σ) {chunk : List RawCommit}
    (hstop : ¬(tail.revisions.get number).offset ≤ (follower.reached.get number).offset)
    (hread : run.read (follower.reached.get number) = .ok chunk) {within : List RawCommit}
    (hwithin : within = chunk.takeWhile fun commit =>
      decide (commit.actual.offset ≤ (tail.revisions.get number).offset))
    (hchunk : Replay.handChunk subscriber within follower = (.ok (), after)) :
    Leads config folder subscriber
      { run with phase := .replaying tail checkpoint (.between (number :: later)) follower }
      { run with
        phase := .replaying tail checkpoint
          (if within.length < chunk.length ∨
              (after.reached.get number).offset ≤ (follower.reached.get number).offset then
            .between later else .between (number :: later)) after } := by
  have hadvance : Replaying.advance subscriber run.read tail.revisions (.between (number :: later))
      follower = .ok (.handing number later (follower.reached.get number).offset within
        (decide (chunk.length ≤ within.length)), follower) := by
    simp only [Replaying.advance, if_neg hstop, hread, hwithin]
  have hfirst : Leads config folder subscriber
      { run with phase := .replaying tail checkpoint (.between (number :: later)) follower } _ :=
    leads_replayed rfl hadvance
  have hlast : Leads config folder subscriber
      { run with
        phase := .replaying tail checkpoint
          (.handing number later (follower.reached.get number).offset within
            (decide (chunk.length ≤ within.length))) follower } _ :=
    leads_handChunk rfl hchunk
  simp only [decide_eq_false_iff_not, Nat.not_le] at hlast
  exact hfirst.trans hlast

/-- A partition is replayed. -/
theorem leads_partition (run : Run σ) (number : UInt32) (follower : Follower σ)
    (hrun : Replay.partition subscriber run.read number (tail.revisions.get number).offset follower
      = (.ok (), after)) :
    Leads config folder subscriber
      { run with phase := .replaying tail checkpoint (.between (number :: later)) follower }
      { run with phase := .replaying tail checkpoint (.between later) after } := by
  fun_induction Replay.partition subscriber run.read number (tail.revisions.get number).offset
    follower with
  | case1 follower hstop =>
    obtain ⟨-, rfl⟩ := hrun
    refine leads_replayed rfl ?_
    simp only [Replaying.advance, if_pos hstop]
  | case2 follower hstop e hread => simp at hrun
  | case3 follower hstop chunk hread within e moved hchunk => simp at hrun
  | case4 follower hstop chunk hread within moved hchunk hnext =>
    obtain ⟨-, rfl⟩ := hrun
    have hlast : Leads config folder subscriber
        { run with phase := .replaying tail checkpoint (.between (number :: later)) follower } _ :=
      leads_chunk run hstop hread rfl hchunk
    rw [if_pos hnext] at hlast
    exact hlast
  | case5 follower hstop chunk hread within moved hchunk hnext ih =>
    have hlast : Leads config folder subscriber
        { run with phase := .replaying tail checkpoint (.between (number :: later)) follower } _ :=
      leads_chunk run hstop hread rfl hchunk
    rw [if_neg hnext] at hlast
    exact hlast.trans (ih hrun)

theorem leads_partitions (run : Run σ) (numbers : List UInt32) :
    ∀ (follower : Follower σ) {after : Follower σ},
      Replay.partitions subscriber run.read tail.revisions numbers follower = (.ok (), after) →
      Leads config folder subscriber
        { run with phase := .replaying tail checkpoint (.between numbers) follower }
        { run with phase := .replaying tail checkpoint (.between []) after } := by
  induction numbers with
  | nil =>
    intro follower after hrun
    obtain ⟨-, rfl⟩ := hrun
    exact .refl
  | cons number later ih =>
    intro follower after hrun
    unfold Replay.partitions at hrun
    rcases hone : Replay.partition subscriber run.read number (tail.revisions.get number).offset
      follower with ⟨result, moved⟩
    rw [hone] at hrun
    cases result with
    | error e => simp at hrun
    | ok _ => exact (leads_partition run number follower hone).trans (ih moved hrun)

/-- **A topic that is replayed is a row of steps**, from the checkpoint of the subscriber to the
live delivery. -/
theorem leads_replay {state final : σ} {reached : Revisions}
    (hphase : run.phase = .registered tail state)
    (hboundary : IsBoundary config run.commits (subscriber.load state).1 tail.revisions)
    (hrun : run.topic.replay run.env.disk subscriber Replay.chunkSize (subscriber.load state).1
      tail.revisions (subscriber.load state).2 = (.ok reached, final)) :
    Leads config folder subscriber run
      { run with phase := .live (subscriber.load state).1 tail.consumer ⟨reached, final, 0⟩ } := by
  have hloaded : Leads config folder subscriber run _ := .single (.moves (.loaded hphase hboundary))
  rw [Topic.replay] at hrun
  rcases hall : Replay.partitions subscriber run.read tail.revisions
    ((List.range run.topic.partitions.length).map UInt32.ofNat)
    ⟨(subscriber.load state).1, (subscriber.load state).2, 0⟩ with ⟨result, follower⟩
  rw [show (fun position => run.topic.read run.env.disk position Replay.chunkSize) = run.read from
    rfl, hall] at hrun
  obtain ⟨hresult, rfl⟩ := Prod.mk.inj hrun
  cases result with
  | error e => simp [Except.map] at hresult
  | ok _ =>
    obtain rfl := Except.ok.inj hresult
    have hreplayed : Leads config folder subscriber
        { run with phase := .replaying tail (subscriber.load state).1 (.between _) _ } _ :=
      leads_partitions run _ _ hall
    exact (hloaded.trans hreplayed).trans (.single (.moves (.switched rfl)))

/-! ## Rounds -/

theorem leads_drain (run : Run σ) (consumer : Queue.ConsumerId) (queue : Queue RawCommit)
    (follower : Follower σ) {turn : Delivery.Turn} {last : Queue RawCommit} {ending : Option Ending}
    {moved : Follower σ}
    (hdrain : Delivery.drain subscriber consumer queue follower = (turn, last, moved))
    (hconclude : Delivery.conclude subscriber turn moved = (ending, after)) :
    Leads config folder subscriber
      { run with
        topic := { run.topic with queue }
        phase := .live checkpoint consumer follower }
      { run with
        topic := { run.topic with queue := last }
        phase :=
          if ending.isSome then .ended after.state else .live checkpoint consumer after } := by
  fun_induction Delivery.drain subscriber consumer queue follower with
  | case1 queue follower between later hpoll ih =>
    have hpolled : Leads config folder subscriber
        { run with
          topic := { run.topic with queue }
          phase := .live checkpoint consumer follower } _ := .single (.moves (.polled rfl hpoll))
    exact hpolled.trans (ih hdrain)
  | case2 queue follower hover =>
    have hmore : turn ≠ .more := by
      rintro rfl
      exact hover last moved hdrain
    have hstep : Step config folder subscriber
        { run with
          topic := { run.topic with queue }
          phase := .live checkpoint consumer follower } _ := .moves (.concluded rfl hdrain hmore)
    rw [hconclude] at hstep
    cases ending <;> exact .single hstep

/-- **A round of a delivery is a row of polls**, as long as it is not the last. -/
theorem leads_round {delivery later : Delivery σ}
    (hphase : run.phase = .live checkpoint delivery.consumer delivery.follower)
    (hcancelled : delivery.cancelled = false)
    (hround : delivery.round subscriber run.topic = (later, last)) (hgoes : later.ending = none) :
    Leads config folder subscriber run
      { run with topic := last, phase := .live checkpoint delivery.consumer later.follower } := by
  rcases hdrain : Delivery.drain subscriber delivery.consumer run.topic.queue delivery.follower with
    ⟨turn, queue, moved⟩
  rcases hconclude : Delivery.conclude subscriber turn moved with ⟨ending, after⟩
  simp only [Delivery.round, hcancelled, Bool.false_eq_true, if_false, hdrain, hconclude] at hround
  obtain ⟨rfl, rfl⟩ := hround
  obtain rfl : ending = none := hgoes
  have hpolls : Leads config folder subscriber { run with phase := .live checkpoint _ _ } _ :=
    leads_drain run delivery.consumer run.topic.queue delivery.follower hdrain hconclude
  rw [← hphase] at hpolls
  exact hpolls

end CommitLog.Handover
