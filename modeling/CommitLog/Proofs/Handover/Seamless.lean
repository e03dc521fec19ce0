import CommitLog.Proofs.Handover.Replay
import CommitLog.Proofs.Handover.Whole
import CommitLog.Proofs.Handover.Writers

/-!
# No gap and no duplicate

From the unit that registers its consumer on, a subscription has every commit either behind it or
in its line: the commits of a topic are those from before the registration, those that were polled,
and those in the line, in this order (`Attends`). The replay hands on the first part, as far as it
comes after the checkpoint, and the polls hand on the second. Since the tails are read in the same
unit, nothing that is polled is covered by them, and nothing is handed on twice.
-/

namespace CommitLog.Handover

open CommitLog.Disk (Place)
open CommitLog.Queue (ConsumerId)
open CommitLog.Topic (Agrees Folder commitsOf partitionNumbers)

variable {σ : Type} {config : Config} {root : Path} {folder : Folder} {home : Place}
  {inner : Subscriber σ} {own : σ} {run next : Run (σ × List RawCommit)} {consumer : ConsumerId}
  {follower : Follower (σ × List RawCommit)} {checkpoint : Revisions} {number : UInt32}
  {seen : List RawCommit} {old : UInt32 → List RawCommit}

/-- What a subscription has behind it and in front of it. -/
def Attends (config : Config) (run : Run (σ × List RawCommit)) :
    Phase (σ × List RawCommit) → Prop
  | .unregistered state => state.2 = []
  | .registered tail state =>
    state.2 = [] ∧ run.topic.queue.IsConsumer tail.consumer ∧
      ∃ before, run.commits = before ++ run.line tail.consumer ∧
        ∀ number, number < config.partitions →
          (tail.revisions.get number).offset.toNat = extent (commitsIn before number)
  | .replaying tail checkpoint todo follower =>
    run.topic.queue.IsConsumer tail.consumer ∧
      ∃ before old, run.commits = before ++ run.line tail.consumer ∧
        Replays config before old checkpoint tail.revisions todo follower
  | .live checkpoint consumer follower =>
    run.topic.queue.IsConsumer consumer ∧
      ∃ seen old, run.commits = seen ++ run.line consumer ∧
        Follows config old checkpoint follower ∧
        ∀ number, number < config.partitions → CaughtUp seen follower.state.2 old number
  | .ended _ => False

/-- What happens around a subscription leaves it with what it has. -/
theorem attends_extends {phase : Phase (σ × List RawCommit)} (h : Attends config run phase)
    (hextends : ∀ consumer, phase.consumer? = some consumer → Extends run next consumer) :
    Attends config next phase := by
  have hline : ∀ consumer (seen : List RawCommit), phase.consumer? = some consumer →
      run.topic.queue.IsConsumer consumer → run.commits = seen ++ run.line consumer →
      next.topic.queue.IsConsumer consumer ∧ next.commits = seen ++ next.line consumer := by
    intro consumer seen hphase hconsumer hcommits
    obtain ⟨hnext, more, hmore, hlonger⟩ := hextends consumer hphase hconsumer
    exact ⟨hnext, by rw [hmore, hcommits, hlonger, List.append_assoc]⟩
  cases phase with
  | unregistered state => exact h
  | registered tail state =>
    obtain ⟨hnone, hconsumer, before, hcommits, htails⟩ := h
    obtain ⟨hnext, hlater⟩ := hline tail.consumer before rfl hconsumer hcommits
    exact ⟨hnone, hnext, before, hlater, htails⟩
  | replaying tail checkpoint todo follower =>
    obtain ⟨hconsumer, before, old, hcommits, hreplays⟩ := h
    obtain ⟨hnext, hlater⟩ := hline tail.consumer before rfl hconsumer hcommits
    exact ⟨hnext, before, old, hlater, hreplays⟩
  | live checkpoint consumer follower =>
    obtain ⟨hconsumer, seen, old, hcommits, hfollows⟩ := h
    obtain ⟨hnext, hlater⟩ := hline consumer seen rfl hconsumer hcommits
    exact ⟨hnext, seen, old, hlater, hfollows⟩
  | ended state => exact h

/-! ## Registering and loading -/

theorem attends_registered (h : InOrder config folder run) (hidle : run.worker = .idle)
    {state : σ × List RawCommit} (hstate : state.2 = []) :
    Attends config { run with
        topic := { run.topic with queue := run.topic.queue.subscribe.2 }
        phase := .registered
          ⟨run.topic.name, run.topic.queue.subscribe.1, run.topic.tails⟩ state }
      (.registered ⟨run.topic.name, run.topic.queue.subscribe.1, run.topic.tails⟩ state) := by
  obtain ⟨hconsumer, hunread⟩ := Queue.subscribe_new h.queue
  refine ⟨hstate, hconsumer, run.commits, ?_,
    fun number hnumber => tails_of_agrees h.agrees hnumber⟩
  have hnone : Run.line { run with
      topic := { run.topic with queue := run.topic.queue.subscribe.2 }
      phase := .registered ⟨run.topic.name, run.topic.queue.subscribe.1, run.topic.tails⟩ state }
        run.topic.queue.subscribe.1 = [] := by
    unfold Run.line
    simp only [hunread, hidle, Worker.owed, List.append_nil]
  rw [show (HotTail.mk run.topic.name run.topic.queue.subscribe.1 run.topic.tails).consumer
    = run.topic.queue.subscribe.1 from rfl, hnone, List.append_nil]
  rfl

/-- A checkpoint between two commits that is not beyond the tails is a place in what was committed
before the registration. -/
theorem exists_old {before : List RawCommit} {tails : Revisions} (h : InOrder config folder run)
    (hcommits : run.commits = before ++ run.line consumer)
    (htails : ∀ number, number < config.partitions →
      (tails.get number).offset.toNat = extent (commitsIn before number))
    (hboundary : IsBoundary config run.commits checkpoint tails) :
    ∃ old : UInt32 → List RawCommit, ∀ number, number < config.partitions →
      old number <+: commitsIn before number ∧
        extent (old number) = (checkpoint.get number).offset.toNat := by
  have heach : ∀ number, ∃ old : List RawCommit, number < config.partitions →
      old <+: commitsIn before number ∧ extent old = (checkpoint.get number).offset.toNat := by
    intro number
    by_cases hnumber : number < config.partitions
    · obtain ⟨front, later, hsplit, hextent, hle⟩ := hboundary number hnumber
      refine ⟨front, fun _ => ⟨?_, hextent⟩⟩
      refine prefix_of_extent_le (entries_ne_of_mem h.agrees.history number)
        ⟨later, hsplit.symm⟩ ?_ ?_
      · rw [hcommits, Partition.commitsIn_append]
        exact List.prefix_append _ _
      · rw [hextent, ← htails number hnumber]
        exact UInt64.le_iff_toNat_le.1 hle
    · exact ⟨[], fun hlt => absurd hlt hnumber⟩
  exact Classical.axiomOfChoice heach

/-- A replay begins with all partitions to be looked at, and nothing handed on. -/
theorem replays_start {before : List RawCommit} {tails : Revisions} {state : σ × List RawCommit}
    (hold : ∀ number, number < config.partitions → old number <+: commitsIn before number ∧
      extent (old number) = (checkpoint.get number).offset.toNat)
    (htails : ∀ number, number < config.partitions →
      (tails.get number).offset.toNat = extent (commitsIn before number))
    (hnone : state.2 = []) :
    Replays config before old checkpoint tails (.between (partitionNumbers config))
      ⟨checkpoint, state, 0⟩ := by
  have htaken : ∀ number, commitsIn state.2 number = [] := by
    intro number
    rw [hnone]
    rfl
  refine ⟨⟨?_, ?_⟩, htails, ?_, ?_⟩
  · exact fun number hnumber => (hold number hnumber).2
  · intro number hnumber
    rw [htaken, List.append_nil]
    exact (hold number hnumber).2.symm
  · intro number hnumber
    rw [htaken, List.append_nil]
    exact (hold number hnumber).1
  · refine ⟨fun number hnumber => Topic.mem_partitionNumbers.1 hnumber, ?_⟩
    intro number hnumber hnot
    exact absurd (Topic.mem_partitionNumbers.2 hnumber) hnot

theorem exists_replays {state : σ × List RawCommit} {before : List RawCommit} {tails : Revisions}
    (h : InOrder config folder run) (hcommits : run.commits = before ++ run.line consumer)
    (htails : ∀ number, number < config.partitions →
      (tails.get number).offset.toNat = extent (commitsIn before number))
    (hboundary : IsBoundary config run.commits (inner.recorded.load state).1 tails)
    (hnone : state.2 = []) :
    ∃ old, Replays config before old (inner.recorded.load state).1 tails
      (.between ((List.range run.topic.partitions.length).map UInt32.ofNat))
      ⟨(inner.recorded.load state).1, (inner.recorded.load state).2, 0⟩ := by
  obtain ⟨old, hold⟩ := exists_old h hcommits htails hboundary
  rw [numbers_of_agrees h.agrees]
  exact ⟨old, replays_start hold htails hnone⟩

/-! ## Polling -/

/-- A commit that is polled comes right behind what was seen, and is handed on. -/
theorem handOn_of_line (h : InOrder config folder run) (hinner : inner.NeverFails)
    (hfollows : Follows config old checkpoint follower)
    (hcaught : ∀ number, number < config.partitions → CaughtUp seen follower.state.2 old number)
    {commit : RawCommit} {rest : List RawCommit} (hcommits : run.commits = seen ++ commit :: rest) :
    ∃ after, Delivery.handOn inner.recorded commit follower = (.more, after) ∧
      Follows config old checkpoint after ∧
      ∀ number, number < config.partitions →
        CaughtUp (seen ++ [commit]) after.state.2 old number := by
  have hlt : commit.partition < config.partitions := h.agrees.history.lt commit (by
    rw [hcommits]
    simp)
  have hsplit : commitsIn run.commits commit.partition
      = commitsIn seen commit.partition ++ commit :: commitsIn rest commit.partition := by
    rw [hcommits, Partition.commitsIn_append, Partition.commitsIn_cons_self]
  obtain ⟨-, -, hactual⟩ := place_of_split h.agrees.history (extent_le h.agrees hlt) hsplit
  rw [← hcaught _ hlt] at hactual
  have hentries : 0 < commit.entries.length := by
    refine List.length_pos_iff.2 (entries_ne_of_mem h.agrees.history commit.partition commit ?_)
    rw [hsplit]
    simp
  -- it ends behind all that was handed on, so it does not count as covered
  have hcovers : follower.reached.covers commit.actual = false := by
    have hreached := hfollows.reached commit.partition hlt
    rw [Revisions.covers, decide_eq_false_iff_not, UInt64.le_iff_toNat_le, hactual,
      show (follower.reached.get commit.actual.partition).offset.toNat = _ from hreached]
    omega
  obtain ⟨after, hhandle⟩ := recorded_handle hinner commit follower.state
  refine ⟨follower.taken commit (after, follower.state.2 ++ [commit]), ?_,
    hfollows.taken hlt hactual after, ?_⟩
  · simp only [Delivery.handOn, hcovers, Bool.false_eq_true, if_false, hhandle]
  · intro number hnumber
    show old number ++ commitsIn (follower.state.2 ++ [commit]) number
      = commitsIn (seen ++ [commit]) number
    rw [commitsIn_snoc, commitsIn_snoc, ← List.append_assoc, hcaught number hnumber]

/-- A poll hands on the next commit of the line, or finds nothing in the queue. -/
theorem poll_cases (h : InOrder config folder run) (hinner : inner.NeverFails)
    (hconsumer : run.topic.queue.IsConsumer consumer)
    (hcommits : run.commits = seen ++ run.line consumer)
    (hfollows : Follows config old checkpoint follower)
    (hcaught : ∀ number, number < config.partitions → CaughtUp seen follower.state.2 old number) :
    (∃ commit queue after,
      Delivery.poll inner.recorded consumer run.topic.queue follower = (.more, queue, after) ∧
        run.topic.queue.Steady queue consumer ∧
        run.commits = (seen ++ [commit])
          ++ (queue.unread consumer ++ run.worker.owed queue consumer) ∧
        Follows config old checkpoint after ∧
        ∀ number, number < config.partitions →
          CaughtUp (seen ++ [commit]) after.state.2 old number) ∨
      Delivery.poll inner.recorded consumer run.topic.queue follower
          = (.caughtUp, run.topic.queue, follower) ∧
        run.topic.queue.unread consumer = [] := by
  rcases Queue.next_cases h.queue hconsumer with ⟨commit, queue, hnext, hunread⟩ | ⟨hnext, hunread⟩
  · have hsteady := Queue.steady_next h.queue consumer
    rw [hnext] at hsteady
    unfold Run.line at hcommits
    rw [hunread, List.cons_append] at hcommits
    obtain ⟨after, hhand, hafter, hcaughtUp⟩ := handOn_of_line h hinner hfollows hcaught hcommits
    refine Or.inl ⟨commit, queue, after, ?_, hsteady, ?_, hafter, hcaughtUp⟩
    · simp only [Delivery.poll, hnext, hhand]
    · rw [owed_steady h.ready hsteady, hcommits, List.append_assoc, List.singleton_append]
  · exact Or.inr ⟨by simp only [Delivery.poll, hnext], hunread⟩

/-! ## Every step -/

/-- What a subscription does by itself keeps everything in order. -/
theorem moves_attends (h : InOrder config folder run) (hinner : inner.NeverFails)
    (hattends : Attends config run run.phase) (hmoves : Moves config inner.recorded run next) :
    InOrder config folder next ∧ Attends config next next.phase := by
  cases hmoves with
  | registered phase_eq idle =>
    rw [phase_eq] at hattends
    obtain ⟨hsteady, -⟩ := Queue.steady_subscribe h.queue 0
    exact ⟨⟨h.agrees.of_partitions rfl rfl, hsteady.sound, ready_steady h.ready hsteady⟩,
      attends_registered h idle hattends⟩
  | @loaded tail state phase_eq boundary =>
    rw [phase_eq] at hattends
    obtain ⟨hnone, hconsumer, before, hcommits, htails⟩ := hattends
    obtain ⟨old, hreplays⟩ := exists_replays h hcommits htails boundary hnone
    exact ⟨⟨h.agrees, h.queue, h.ready⟩, hconsumer, before, old, hcommits, hreplays⟩
  | @replayed tail checkpoint todo follower phase_eq =>
    rw [phase_eq] at hattends
    obtain ⟨hconsumer, before, old, hcommits, hreplays⟩ := hattends
    obtain ⟨moved, after, hrun, hafter⟩ := replays_advance h.agrees hcommits hinner hreplays
    rw [hrun]
    exact ⟨⟨h.agrees, h.queue, h.ready⟩, hconsumer, before, old, hcommits, hafter⟩
  | switched phase_eq =>
    rw [phase_eq] at hattends
    obtain ⟨hconsumer, before, old, hcommits, hreplays⟩ := hattends
    refine ⟨⟨h.agrees, h.queue, h.ready⟩, hconsumer, before, old, hcommits,
      hreplays.follows.congr rfl rfl, ?_⟩
    exact fun number hnumber => hreplays.awaits.2 number hnumber (by simp)
  | polled phase_eq poll =>
    rw [phase_eq] at hattends
    obtain ⟨hconsumer, seen, old, hcommits, hfollows, hcaught⟩ := hattends
    rcases poll_cases h hinner hconsumer hcommits hfollows hcaught with
      ⟨commit, queue, after, hpoll, hsteady, hlater, hafter, hnow⟩ | ⟨hpoll, -⟩
    · rw [hpoll] at poll
      obtain ⟨-, rfl, rfl⟩ := poll
      exact ⟨⟨h.agrees.of_partitions rfl rfl, hsteady.sound, ready_steady h.ready hsteady⟩,
        hsteady.isConsumer hconsumer, _, old, hlater, hafter, hnow⟩
    · rw [hpoll] at poll
      simp at poll
  | @concluded checkpoint consumer follower later turn queue phase_eq poll isOver =>
    rw [phase_eq] at hattends
    obtain ⟨hconsumer, seen, old, hcommits, hfollows, hcaught⟩ := hattends
    rcases poll_cases h hinner hconsumer hcommits hfollows hcaught with
      ⟨commit, queue, after, hpoll, -⟩ | ⟨hpoll, -⟩
    · rw [hpoll] at poll
      exact absurd (Prod.mk.inj poll).1.symm isOver
    · rw [hpoll] at poll
      obtain ⟨rfl, rfl, rfl⟩ := poll
      obtain ⟨after, hsave, hreached, hstate⟩ := recorded_saveNew hinner follower
      simp only [Delivery.conclude, hsave, reduceCtorEq, if_false]
      refine ⟨⟨h.agrees.of_partitions rfl rfl, h.queue, h.ready⟩, hconsumer, seen, old, hcommits,
        hfollows.congr hreached hstate, ?_⟩
      rw [hstate]
      exact hcaught

/-- A topic that was just opened is in order. -/
theorem inOrder_begins {τ : Type} {state : τ} {run : Run τ}
    (h : Begins config root folder home state run) : InOrder config folder run := by
  obtain ⟨life, hlife, hrest, hpast, settings, disk, hvalid, hpartitions, hlimit, hrun, henv⟩ :=
    h.opened
  have hconsistent := hlife.consistent
  have hcommits : life.commits = life.past := by
    unfold Topic.Life.commits
    rw [hrest, Option.map_none, Option.getD_none, List.append_nil]
  obtain ⟨-, -, -, -, hopened⟩ := (hconsistent.rests hrest).recover hconsistent.sound
    hconsistent.reliable hconsistent.follows hvalid hpartitions hlimit hrun
  obtain ⟨directory, hentry, hagrees, hqueue⟩ := hopened _ rfl
  have hdisk : run.env.disk = disk := by rw [henv]
  have hdirectory : directory = folder.directory := by
    have hhome := h.entry
    rw [hdisk, hentry] at hhome
    exact Disk.Entry.directory.inj (Option.some.inj hhome)
  have hfolder : folder = ⟨root.child home.name, directory⟩ := by
    rw [← h.path_eq, hdirectory]
  have hmade : run.commits = life.past := by
    unfold Run.commits
    rw [h.worker, hpast, hcommits]
    exact List.append_nil _
  refine ⟨?_, ?_, ?_⟩
  · rw [hdisk, hfolder, hmade]
    exact hagrees
  · rw [hqueue]
    exact Queue.sound_ofFanout _
  · rw [h.worker, hqueue]
    exact Queue.isBusy_ofFanout _

/-- **Whatever has happened, everything is in order.** -/
theorem Reachable.attends (hinner : inner.NeverFails)
    (h : Reachable config root folder home inner.recorded (own, []) run) :
    InOrder config folder run ∧ Attends config run run.phase := by
  -- on the steps; what others do and what the subscription does are told apart
  induction h with
  | begins h =>
    refine ⟨inOrder_begins h, ?_⟩
    rw [h.phase]
    exact rfl
  | step _ hstep ih =>
    obtain ⟨hinOrder, hattends⟩ := ih
    cases hstep with
    | moves hmoves => exact moves_attends hinOrder hinner hattends hmoves
    | happens hhappens =>
      obtain ⟨hnext, hphase, hextends⟩ := happens_inOrder hinOrder hhappens
      refine ⟨hnext, ?_⟩
      rw [hphase]
      exact attends_extends hattends hextends

/-! ## No gap and no duplicate -/

theorem owed_of_pending {worker : Worker} (queue : Queue RawCommit) (consumer : ConsumerId)
    (h : worker.pending = []) : worker.owed queue consumer = [] := by
  cases worker with
  | idle => rfl
  | appending attempts results => exact h
  | publishing results batches => exact h
  | held results backlog =>
    obtain ⟨hbatch, hlater⟩ := List.append_eq_nil_iff.1 h
    rw [Worker.owed, hlater, List.append_nil]
    cases queue with
    | ring r => exact hbatch
    | mailboxes boxes =>
      show boxes.owed backlog.publication consumer = []
      unfold Queue.Mailboxes.owed
      rw [hbatch, ite_self]

/-- What was taken comes right after the checkpoint. -/
theorem commitsAfter_of_taken (h : InOrder config folder run)
    (hfollows : Follows config old checkpoint follower) (hnumber : number < config.partitions)
    {rest : List RawCommit}
    (hsplit : commitsIn run.commits number
      = old number ++ commitsIn follower.state.2 number ++ rest) :
    commitsAfter run.commits checkpoint number = commitsIn follower.state.2 number ++ rest := by
  rw [List.append_assoc] at hsplit
  exact commitsAfter_of_split h.agrees.history (extent_le h.agrees hnumber) hsplit
    (hfollows.checkpoint number hnumber)

/-- **From cold to hot without a gap and without a duplicate.** In whatever order writers, other
consumers and the pieces of a subscription come, the subscription does not end, and what has been
delivered of a partition is a front of its commits after the checkpoint. When the replay is through,
a poll finds nothing and nothing waits to be published, it is all of them. -/
theorem no_gap_no_duplicate (hinner : inner.NeverFails)
    (h : Reachable config root folder home inner.recorded (own, []) run) :
    (∀ state, run.phase ≠ .ended state) ∧
      (run.phase.checkpoint? = none → run.phase.state.2 = []) ∧
      ∀ checkpoint, run.phase.checkpoint? = some checkpoint →
        (∀ number, number < config.partitions →
          commitsIn run.phase.state.2 number <+: commitsAfter run.commits checkpoint number) ∧
        ∀ consumer follower, run.phase = .live checkpoint consumer follower →
          (run.topic.queue.next consumer).1 = .empty → run.worker.pending = [] →
          ∀ number, number < config.partitions →
            commitsIn run.phase.state.2 number = commitsAfter run.commits checkpoint number := by
  obtain ⟨hinOrder, hattends⟩ := h.attends hinner
  cases hphase : run.phase with
  | unregistered state =>
    rw [hphase] at hattends
    exact ⟨by simp, fun _ => hattends, by simp [Phase.checkpoint?]⟩
  | registered tail state =>
    rw [hphase] at hattends
    exact ⟨by simp, fun _ => hattends.1, by simp [Phase.checkpoint?]⟩
  | replaying tail start todo follower =>
    rw [hphase] at hattends
    obtain ⟨-, before, old, hcommits, hreplays⟩ := hattends
    refine ⟨by simp, by simp [Phase.checkpoint?], ?_⟩
    intro checkpoint hcheckpoint
    obtain rfl : start = checkpoint := Option.some.inj hcheckpoint
    refine ⟨fun number hnumber => ?_, by simp⟩
    -- what is not handed on yet is missed, or stands in the line
    obtain ⟨missed, hmissed⟩ := hreplays.front number hnumber
    have hsplit : commitsIn run.commits number = old number ++ commitsIn follower.state.2 number
        ++ (missed ++ commitsIn (run.line tail.consumer) number) := by
      rw [hcommits, Partition.commitsIn_append, ← hmissed, List.append_assoc _ missed]
    exact ⟨_, (commitsAfter_of_taken hinOrder hreplays.follows hnumber hsplit).symm⟩
  | live start consumer follower =>
    rw [hphase] at hattends
    obtain ⟨hconsumer, seen, old, hcommits, hfollows, hcaught⟩ := hattends
    refine ⟨by simp, by simp [Phase.checkpoint?], ?_⟩
    intro checkpoint hcheckpoint
    obtain rfl : start = checkpoint := Option.some.inj hcheckpoint
    have hall : ∀ number, number < config.partitions →
        commitsAfter run.commits start number
          = commitsIn follower.state.2 number ++ commitsIn (run.line consumer) number := by
      intro number hnumber
      refine commitsAfter_of_taken hinOrder hfollows hnumber ?_
      rw [hcaught number hnumber, hcommits, Partition.commitsIn_append]
    refine ⟨fun number hnumber => ⟨_, (hall number hnumber).symm⟩, ?_⟩
    intro other later hsame hempty hpending number hnumber
    obtain ⟨-, rfl, rfl⟩ := Phase.live.inj hsame
    -- an empty poll and no publication leave nothing in the line
    have hunread : run.topic.queue.unread consumer = [] := by
      rcases Queue.next_cases hinOrder.queue hconsumer with ⟨commit, queue, hnext, -⟩ | ⟨-, hunread⟩
      · rw [hnext] at hempty
        simp at hempty
      · exact hunread
    have hline : run.line consumer = [] := by
      unfold Run.line
      rw [hunread, owed_of_pending _ _ hpending]
      rfl
    rw [hall number hnumber, hline]
    exact (List.append_nil _).symm
  | ended state =>
    rw [hphase] at hattends
    exact hattends.elim

/-- A commit from before the subscription, which the replay hands on, and one that is made while the
consumer is registered already, which a poll hands on. -/
theorem no_gap_no_duplicate_of_cold_and_hot :
    ∃ (inner : Subscriber Unit) (replayed run : Run (Unit × List RawCommit))
      (cold hot : RawCommit),
      Reachable {} ⟨["", ""]⟩ ⟨Path.child ⟨["", ""]⟩ "t", 1⟩ ⟨0, "t"⟩ inner.recorded ((), [])
          replayed ∧
        replayed.commits = [cold, hot] ∧ replayed.phase.state.2 = [cold] ∧
        Step {} ⟨Path.child ⟨["", ""]⟩ "t", 1⟩ inner.recorded replayed run ∧
        run.phase.checkpoint? = some .empty ∧ run.phase.state.2 = [cold, hot] ∧
        commitsIn run.phase.state.2 0 = commitsAfter run.commits .empty 0 := by
  let attempt (offset : UInt64) : RawAttempt :=
    { key := [107], entries := [[118]], expected := ⟨0, offset⟩ }
  let inner : Subscriber Unit :=
    ⟨fun _ => (.empty, ()), fun _ _ => (.taken, ()), fun _ _ => (.ok (), ())⟩
  have hinner : inner.NeverFails := ⟨fun _ _ => rfl, fun _ _ => rfl⟩
  have hcomputed : (Topic.recover {} ⟨["", ""]⟩ "t" {}).2.entryAt? ⟨0, "t"⟩ = some (.directory 1) ∧
      (Topic.recover {} ⟨["", ""]⟩ "t" {}).1.toOption.map (fun opened =>
        let before := Topic.appendAll [attempt 0] opened
          { disk := (Topic.recover {} ⟨["", ""]⟩ "t" {}).2 }
        let cold := before.2.1.publish (commitsOf before.1)
        let registered : Topic := { cold.2 with queue := cold.2.queue.subscribe.2 }
        let since := Topic.appendAll [attempt 1] registered before.2.2
        let hot := since.2.1.publish (commitsOf since.1)
        let replayed := hot.2.replay since.2.2.disk inner.recorded Replay.chunkSize .empty
          cold.2.tails ((), [])
        (cold.1.isNone && hot.1.isNone, (commitsOf before.1).length, (commitsOf since.1).length,
          replayed.1.toOption.map fun reached =>
            let polled := Delivery.poll inner.recorded cold.2.queue.subscribe.1 hot.2.queue
              ⟨reached, replayed.2, 0⟩
            decide (replayed.2.2 = commitsOf before.1 ∧ polled.1 = .more ∧
              (polled.2.1.next cold.2.queue.subscribe.1).1 = .empty ∧
              polled.2.2.state.2 = commitsOf before.1 ++ commitsOf since.1)))
          = some (true, 1, 1, some true) := by decide +kernel
  have hfresh : Topic.Fresh ⟨["", ""]⟩ ⟨0, "t"⟩ {} :=
    ⟨by decide, rfl, rfl, rfl, Disk.entryAt?_new _, Disk.sound_new, by simp [Disk.Reliable]⟩
  rcases hrecover : Topic.recover {} ⟨["", ""]⟩ "t" {} with ⟨result, disk⟩
  rw [hrecover] at hcomputed
  obtain ⟨hentry, hcomputed⟩ := hcomputed
  cases result with
  | error failure => simp [Except.toOption] at hcomputed
  | ok opened =>
    rcases hbefore : Topic.appendAll [attempt 0] opened { disk } with ⟨first, moved, env⟩
    rcases hcold : moved.publish (commitsOf first) with ⟨waiting, topic⟩
    rcases hsince : Topic.appendAll [attempt 1] { topic with queue := topic.queue.subscribe.2 } env
      with ⟨second, went, later⟩
    rcases hhot : went.publish (commitsOf second) with ⟨held, served⟩
    rcases hreplay : served.replay later.disk inner.recorded Replay.chunkSize .empty topic.tails
      ((), []) with ⟨reached, state⟩
    simp only [Except.toOption, Option.map_some, hbefore, hcold, hsince, hhot, hreplay,
      Option.some.injEq, Prod.mk.injEq, Bool.and_eq_true, Option.isNone_iff_eq_none] at hcomputed
    obtain ⟨⟨rfl, rfl⟩, hone, htwo, hdelivered⟩ := hcomputed
    obtain ⟨revisions, rfl⟩ : ∃ revisions, reached = .ok revisions := by
      cases reached with
      | error e => simp at hdelivered
      | ok revisions => exact ⟨revisions, rfl⟩
    rcases hpoll : Delivery.poll inner.recorded topic.queue.subscribe.1 served.queue
      ⟨revisions, state, 0⟩ with ⟨turn, queue, follower⟩
    simp only [Option.map_some, hpoll, Option.some.injEq, decide_eq_true_eq] at hdelivered
    obtain ⟨hgiven, rfl, hempty, htaken⟩ := hdelivered
    obtain ⟨cold, hfirst⟩ := List.length_eq_one_iff.1 hone
    obtain ⟨hot, hsecond⟩ := List.length_eq_one_iff.1 htwo
    rw [hfirst] at hgiven htaken
    rw [hsecond] at htaken
    let start : Run (Unit × List RawCommit) :=
      { topic := opened, env := { disk }, past := [], phase := .unregistered ((), []) }
    have hbegins : Begins {} ⟨["", ""]⟩ ⟨Path.child ⟨["", ""]⟩ "t", 1⟩ ⟨0, "t"⟩ ((), []) start :=
      ⟨rfl, rfl, rfl, hentry, {}, .fresh hfresh, rfl, rfl, {}, disk, by decide, rfl, rfl, hrecover,
        rfl⟩
    have hregistered : Leads {} ⟨Path.child ⟨["", ""]⟩ "t", 1⟩ inner.recorded start _ :=
      (leads_answered [attempt 0] rfl hbefore hcold).tail (.moves (.registered rfl rfl))
    have hmade : Leads {} ⟨Path.child ⟨["", ""]⟩ "t", 1⟩ inner.recorded start _ :=
      hregistered.trans (leads_answered [attempt 1] rfl hsince hhot)
    have hlive : Leads {} ⟨Path.child ⟨["", ""]⟩ "t", 1⟩ inner.recorded start _ :=
      hmade.trans (leads_replay rfl (fun _ _ => ⟨[], _, rfl, rfl, UInt64.zero_le⟩) hreplay)
    let replayed : Run (Unit × List RawCommit) :=
      { topic := served
        env := later
        past := commitsOf first ++ commitsOf second
        phase := .live .empty topic.queue.subscribe.1 ⟨revisions, state, 0⟩ }
    let run : Run (Unit × List RawCommit) :=
      { replayed with
        topic := { served with queue }
        phase := .live .empty topic.queue.subscribe.1 follower }
    have hreplayed : Reachable {} ⟨["", ""]⟩ ⟨Path.child ⟨["", ""]⟩ "t", 1⟩ ⟨0, "t"⟩ inner.recorded
        ((), []) replayed := (Reachable.begins hbegins).leads hlive
    have hstep : Step {} ⟨Path.child ⟨["", ""]⟩ "t", 1⟩ inner.recorded replayed run :=
      .moves (.polled rfl hpoll)
    have hcommits : replayed.commits = [cold, hot] := by
      show (commitsOf first ++ commitsOf second) ++ [] = _
      rw [hfirst, hsecond]
      rfl
    exact ⟨inner, replayed, run, cold, hot, hreplayed, hcommits, hgiven, hstep, rfl, htaken,
      ((no_gap_no_duplicate hinner (hreplayed.step hstep)).2.2 .empty rfl).2 _ _ rfl hempty rfl 0
        (by decide)⟩

end CommitLog.Handover
