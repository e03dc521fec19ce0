import CommitLog.Proofs.Resuming.Log

/-!
# What a session keeps up

A session has behind it what its consumer has seen, and its follower stands somewhere in that. While
it replays, the follower goes the way of one that takes everything (`advance_inSession`), since a
session that does not ends; so the replay is where it would be for a subscriber that never fails.
While it is live, the follower stands behind all that was seen. Either way the next commit that it
hands over is the one right behind what was taken before (`IsNext`), in whatever session that was.
-/

namespace CommitLog.Resuming

open CommitLog.Disk (Keeps Place top)
open CommitLog.Handover
open CommitLog.Queue (ConsumerId)
open CommitLog.Topic (Agrees Folder)

variable {σ : Type} {config : Config} {root : Path} {folder : Folder} {home : Place}
  {inner : Subscriber σ} {run next : Run (σ × List Event)} {consumer : ConsumerId}
  {follower after : Follower (σ × List Event)} {checkpoint stop : Revisions} {number : UInt32}
  {commits before seen line taken : List RawCommit} {commit : RawCommit}
  {old : UInt32 → List RawCommit} {todo moved : Replaying} {topic : Topic} {disk : Disk}

/-! ## Replays -/

/-- A subscriber that takes everything. -/
def takesAll : Subscriber Unit where
  load state := (.empty, state)
  handle _ state := (.taken, state)
  save _ state := (.ok (), state)

theorem takesAll_neverFails : takesAll.NeverFails := ⟨fun _ _ => rfl, fun _ _ => rfl⟩

/-- A follower without its past sessions, as one that has taken these commits in this one. -/
def inSession (follower : Follower (σ × List Event)) (taken : List RawCommit) :
    Follower (Unit × List RawCommit) := ⟨follower.reached, ((), taken), follower.unsaved⟩

/-- A checkpoint that is kept, or that there is no need for, changes nothing in the session. -/
theorem saveNew_inSession (h : follower.saveNew (traced inner) = (.ok (), after))
    (taken : List RawCommit) :
    (inSession follower taken).saveNew takesAll.recorded = (.ok (), inSession after taken) := by
  unfold Follower.saveNew at h ⊢
  split at h
  next hnone =>
    obtain ⟨-, rfl⟩ := Prod.mk.inj h
    rw [if_pos (show (inSession follower taken).unsaved = 0 from hnone)]
  next hnew =>
    obtain ⟨-, rfl⟩ := Prod.mk.inj h
    rw [if_neg (show ¬(inSession follower taken).unsaved = 0 from hnew)]
    rfl

/-- **A replay that goes on goes the way of one that nothing is refused in.** -/
theorem advance_inSession {read : Revision → Except LogError (List RawCommit)}
    (h : todo.advance (traced inner) read stop follower = .ok (moved, after))
    (taken : List RawCommit) :
    ∃ more, todo.advance takesAll.recorded read stop (inSession follower taken)
      = .ok (moved, inSession after (taken ++ more)) := by
  cases todo with
  | between numbers =>
    refine ⟨[], ?_⟩
    rw [List.append_nil]
    cases numbers with
    | nil =>
      obtain ⟨rfl, rfl⟩ := Prod.mk.inj (Except.ok.inj h)
      rfl
    | cons number later =>
      simp only [Replaying.advance] at h ⊢
      split at h
      next hdone =>
        obtain ⟨rfl, rfl⟩ := Prod.mk.inj (Except.ok.inj h)
        rw [if_pos (show _ ≤ ((inSession follower taken).reached.get number).offset from hdone)]
      next hdone =>
        rw [if_neg (show ¬_ ≤ ((inSession follower taken).reached.get number).offset from hdone)]
        cases hread : read (follower.reached.get number) with
        | error e => simp [hread] at h
        | ok chunk =>
          simp only [hread] at h
          obtain ⟨rfl, rfl⟩ := Prod.mk.inj (Except.ok.inj h)
          simp only [inSession, hread]
  | handing number later start rest whole =>
    cases rest with
    | cons commit rest =>
      simp only [Replaying.advance] at h
      split at h
      next state hhandle =>
        obtain ⟨rfl, rfl⟩ := Prod.mk.inj (Except.ok.inj h)
        exact ⟨[commit], rfl⟩
      next => simp at h
      next => simp at h
    | nil =>
      refine ⟨[], ?_⟩
      rw [List.append_nil]
      simp only [Replaying.advance] at h ⊢
      rcases hsave : follower.saveNew (traced inner) with ⟨result, saved⟩
      rw [hsave] at h
      cases result with
      | error e => simp at h
      | ok _ =>
        rw [saveNew_inSession hsave taken]
        dsimp only at h ⊢
        split at h
        next hover =>
          obtain ⟨rfl, rfl⟩ := Prod.mk.inj (Except.ok.inj h)
          rw [if_pos (show _ ∨ ((inSession saved taken).reached.get number).offset ≤ start
            from hover)]
        next hon =>
          obtain ⟨rfl, rfl⟩ := Prod.mk.inj (Except.ok.inj h)
          rw [if_neg (show ¬(_ ∨ ((inSession saved taken).reached.get number).offset ≤ start)
            from hon)]

/-- What a replay hands over comes right behind what its follower has seen. -/
theorem isNext_of_replays {later : List UInt32} {start : UInt64} {rest : List RawCommit}
    {whole : Bool} (h : Agrees config topic disk folder commits)
    (hcommits : commits = before ++ line)
    (hreplays : Replays config before old checkpoint stop
      (.handing number later start (commit :: rest) whole) (inSession follower taken)) :
    IsNext config commits follower.reached commit := by
  obtain ⟨hfollows, -, -, hnumber, -, -, -, missed, hmissed, -⟩ := hreplays
  have hsplit : commitsIn commits number
      = (old number ++ commitsIn taken number)
        ++ commit :: (rest ++ missed ++ commitsIn line number) := by
    rw [hcommits, Partition.commitsIn_append, ← hmissed]
    simp [inSession]
  obtain ⟨rfl, -, -, -⟩ := actual_le_iff h hcommits hnumber hsplit
  exact ⟨hnumber, _, _, hsplit, (hfollows.reached _ hnumber).symm⟩

/-- **A replay leaves its follower where everything before it has been taken.** -/
theorem advance_backed {read : Revision → Except LogError (List RawCommit)}
    (h : Agrees config topic disk folder commits) (hcommits : commits = before ++ line)
    (hreplays : Replays config before old checkpoint stop todo (inSession follower taken))
    (hbacked : Backed config commits follower)
    (hrun : todo.advance (traced inner) read stop follower = .ok (moved, after)) :
    Backed config commits after := by
  cases todo with
  | between numbers =>
    have hstays : after = follower := by
      cases numbers with
      | nil => exact (Prod.mk.inj (Except.ok.inj hrun)).2.symm
      | cons number later =>
        simp only [Replaying.advance] at hrun
        split at hrun
        next => exact (Prod.mk.inj (Except.ok.inj hrun)).2.symm
        next =>
          split at hrun
          next => simp at hrun
          next => exact (Prod.mk.inj (Except.ok.inj hrun)).2.symm
    rw [hstays]
    exact hbacked
  | handing number later start rest whole =>
    cases rest with
    | cons commit rest =>
      have hnext := isNext_of_replays h hcommits hreplays
      simp only [Replaying.advance] at hrun
      split at hrun
      next state hhandle =>
        obtain ⟨-, rfl⟩ := Prod.mk.inj (Except.ok.inj hrun)
        have hmoved := hbacked.advance h.history (extent_le h hnext.1) hnext
          (congrArg Prod.fst hhandle)
        rw [hhandle] at hmoved
        exact hmoved
      next => simp at hrun
      next => simp at hrun
    | nil =>
      have hsaved := hbacked.saveNew inner
      rcases hsave : follower.saveNew (traced inner) with ⟨result, saved⟩
      simp only [Replaying.advance, hsave] at hrun
      rw [hsave] at hsaved
      cases result with
      | error e => simp at hrun
      | ok _ =>
        have hsame : after = saved := by
          dsimp only at hrun
          split at hrun <;> exact (Prod.mk.inj (Except.ok.inj hrun)).2.symm
        rw [hsame]
        exact hsaved

/-! ## Live delivery -/

/-- A follower stands behind all that was seen. -/
def Stands (config : Config) (seen : List RawCommit) (reached : Revisions) : Prop :=
  ∀ number, number < config.partitions →
    (reached.get number).offset.toNat = extent (commitsIn seen number)

section Live

variable (h : Agrees config topic disk folder commits) (hcommits : commits = seen ++ commit :: line)
  {reached : Revisions} (hstands : Stands config seen reached)

include h hcommits hstands

/-- What comes behind all that was seen is next, and is new. -/
theorem isNext_of_stands : IsNext config commits reached commit ∧
    reached.covers commit.actual = false ∧ Stands config (seen ++ [commit])
      (reached.advance commit.actual) := by
  have hlt : commit.partition < config.partitions := h.history.lt commit (by
    rw [hcommits]
    simp)
  have hsplit : commitsIn commits commit.partition
      = commitsIn seen commit.partition ++ commit :: commitsIn line commit.partition := by
    rw [hcommits, Partition.commitsIn_append, Partition.commitsIn_cons_self]
  obtain ⟨-, -, hactual⟩ := place_of_split h.history (extent_le h hlt) hsplit
  have hreached := hstands commit.partition hlt
  have hentries : 0 < commit.entries.length := by
    refine List.length_pos_iff.2 (entries_ne_of_mem h.history commit.partition commit ?_)
    rw [hsplit]
    simp
  refine ⟨⟨hlt, _, _, hsplit, hreached.symm⟩, ?_, fun number hnumber => ?_⟩
  · rw [Revisions.covers, decide_eq_false_iff_not, UInt64.le_iff_toNat_le, hactual,
      show (reached.get commit.actual.partition).offset.toNat = _ from hreached]
    omega
  · have hle : (reached.get commit.partition).offset ≤ commit.actual.offset := by
      rw [UInt64.le_iff_toNat_le, hactual, hreached]
      exact Nat.le_add_right _ _
    rw [show (reached.advance commit.actual).get number
        = if number = commit.partition then commit.actual else reached.get number from
      Revisions.get_advance_of_le hle number, Partition.commitsIn_append,
      Partition.commitsIn_singleton, extent_append]
    split
    next hsame =>
      rw [hsame, hactual]
      rfl
    next => exact hstands number hnumber

end Live

/-- **A poll leaves its follower where everything before it has been taken**, and behind all that
was seen unless the subscriber has failed. -/
theorem poll_backed {turn : Delivery.Turn} {last : Queue RawCommit}
    (h : Orderly config folder run) (hbacked : Backed config run.commits follower)
    (hfaces : Faces run seen consumer) (hstands : Stands config seen follower.reached)
    (hpoll : Delivery.poll (traced inner) consumer run.topic.queue follower
      = (turn, last, after)) :
    Orderly config folder { run with topic := { run.topic with queue := last } } ∧
      Backed config run.commits after ∧
      ((∀ ending, turn ≠ .ended ending) → ∃ later,
        Faces { run with topic := { run.topic with queue := last } } later consumer ∧
          Stands config later after.reached) := by
  rcases hnext : run.topic.queue.next consumer with ⟨poll, queue⟩
  obtain ⟨hlast, hready, hnothing⟩ := next_faces h hfaces hnext
  unfold Delivery.poll at hpoll
  rw [hnext] at hpoll
  cases poll with
  | empty =>
    obtain ⟨rfl, rfl, rfl⟩ := hpoll
    exact ⟨hlast, hbacked, fun _ => ⟨seen, hnothing (by simp), hstands⟩⟩
  | closed =>
    obtain ⟨rfl, rfl, rfl⟩ := hpoll
    exact ⟨hlast, hbacked, fun _ => ⟨seen, hnothing (by simp), hstands⟩⟩
  | ready commit =>
    obtain ⟨⟨rest, hcommits⟩, hlater⟩ := hready commit rfl
    obtain ⟨hisNext, hnew, hbehind⟩ := isNext_of_stands h.agrees hcommits hstands
    have hhanded := hbacked.handed h.agrees.history hisNext inner
    simp only [Delivery.handOn, hnew, Bool.false_eq_true, if_false] at hpoll
    rcases hhandle : (traced inner).handle commit follower.state with ⟨handled, state⟩
    rw [hhandle] at hpoll hhanded
    cases handled with
    | taken =>
      obtain ⟨rfl, rfl, rfl⟩ := hpoll
      have hmoved := hbacked.advance h.agrees.history (extent_le h.agrees hisNext.1) hisNext
        (congrArg Prod.fst hhandle)
      rw [hhandle] at hmoved
      exact ⟨hlast, hmoved, fun _ => ⟨_, hlater, hbehind⟩⟩
    | refused error =>
      obtain ⟨rfl, rfl, rfl⟩ := hpoll
      exact ⟨hlast, hhanded.save inner, fun hgoes => absurd rfl (hgoes _)⟩
    | panicked =>
      obtain ⟨rfl, rfl, rfl⟩ := hpoll
      exact ⟨hlast, hhanded, fun hgoes => absurd rfl (hgoes _)⟩

/-- A round ends with a checkpoint, or where the subscriber has failed. -/
theorem conclude_backed {turn : Delivery.Turn} {ending : Option Ending}
    (hbacked : Backed config commits follower)
    (hconclude : Delivery.conclude (traced inner) turn follower = (ending, after)) :
    Backed config commits after ∧
      (ending = none → (∀ ending, turn ≠ .ended ending) ∧ after.reached = follower.reached) := by
  have hsaved := hbacked.saveNew inner
  have hreached : (follower.saveNew (traced inner)).2.reached = follower.reached := by
    unfold Follower.saveNew
    split <;> rfl
  have hgoes : (∀ ending, turn ≠ .ended ending) →
      after = (follower.saveNew (traced inner)).2 := by
    intro hturn
    rcases hsave : follower.saveNew (traced inner) with ⟨result, saved⟩
    cases turn with
    | ended ending => exact absurd rfl (hturn ending)
    | more | caughtUp | closed =>
      simp only [Delivery.conclude, hsave] at hconclude
      cases result <;> exact (Prod.mk.inj hconclude).2.symm
  cases turn with
  | ended reason =>
    obtain ⟨rfl, rfl⟩ := Prod.mk.inj hconclude
    exact ⟨hbacked, by simp⟩
  | more | caughtUp | closed =>
    rw [hgoes (by simp)]
    exact ⟨hsaved, fun _ => ⟨by simp, hreached⟩⟩

/-! ## Every step -/

/-- What a session has behind it, and where its follower stands. -/
def Continues (config : Config) (run : Run (σ × List Event)) : Phase (σ × List Event) → Prop
  | .registered tail state =>
    ∃ before, Faces run before tail.consumer ∧ Told config before state.2 ∧
      ∀ number, number < config.partitions →
        (tail.revisions.get number).offset.toNat = extent (commitsIn before number)
  | .replaying tail checkpoint todo follower =>
    Backed config run.commits follower ∧ ∃ before old taken, Faces run before tail.consumer ∧
      Replays config before old checkpoint tail.revisions todo (inSession follower taken)
  | .live _ consumer follower =>
    Backed config run.commits follower ∧ ∃ seen, Faces run seen consumer ∧
      Stands config seen follower.reached
  | _ => True

/-- The log is in order, and so is what the subscriber was told. -/
structure Consistent (config : Config) (root : Path) (folder : Folder) (home : Place)
    (run : Run (σ × List Event)) : Prop where
  path_eq : folder.path = root.child home.name
  orderly : Orderly config folder run
  told : Told config run.commits run.phase.state.2
  continues : Continues config run run.phase

/-- What happens around a session leaves it with what it has. -/
theorem Continues.transport {phase : Phase (σ × List Event)} (h : Continues config run phase)
    (hgrows : run.commits <+: next.commits)
    (hfaces : ∀ seen consumer, phase.consumer? = some consumer → Faces run seen consumer →
      Faces next seen consumer) : Continues config next phase := by
  cases phase with
  | unregistered state => exact trivial
  | ended state => exact trivial
  | registered tail state =>
    obtain ⟨before, hbefore, htold, htails⟩ := h
    exact ⟨before, hfaces _ _ rfl hbefore, htold, htails⟩
  | replaying tail checkpoint todo follower =>
    obtain ⟨hbacked, before, old, taken, hbefore, hreplays⟩ := h
    exact ⟨hbacked.mono hgrows, before, old, taken, hfaces _ _ rfl hbefore, hreplays⟩
  | live checkpoint consumer follower =>
    obtain ⟨hbacked, seen, hseen, hstands⟩ := h
    exact ⟨hbacked.mono hgrows, seen, hfaces _ _ rfl hseen, hstands⟩

/-- Where a run stands does not depend on how far the session is. -/
theorem Orderly.phase (h : Orderly config folder run) (phase : Phase (σ × List Event)) :
    Orderly config folder { run with phase } := by
  cases h with
  | inOrder h => exact .inOrder ⟨h.agrees, h.queue, h.ready⟩
  | halted h => exact .halted ⟨h.agrees, h.shut, h.resumable⟩

theorem Faces.exists_line (h : Faces run seen consumer) : ∃ line, run.commits = seen ++ line :=
  ⟨_, h.2.choose_spec.1⟩

namespace Consistent

/-- A session comes to its end. -/
theorem ends (h : Consistent config root folder home run) {state : σ × List Event}
    (htold : Told config run.commits state.2) :
    Consistent config root folder home { run with phase := .ended state } :=
  ⟨h.path_eq, h.orderly.phase _, htold, trivial⟩

/-- A session loads its checkpoint. -/
theorem loaded (h : Consistent config root folder home run) {tail : HotTail}
    {state : σ × List Event} (hphase : run.phase = .registered tail state)
    (hresumes : (inner.load state.1).1 = lastSaved state.2) :
    Consistent config root folder home
      { run with
        phase := .replaying tail (inner.load state.1).1
          (.between ((List.range run.topic.partitions.length).map UInt32.ofNat))
          ⟨(inner.load state.1).1, ((traced inner).load state).2, 0⟩ } := by
  have htold := h.told
  have hcontinues := h.continues
  rw [hphase] at htold hcontinues
  obtain ⟨before, hfaces, hbefore, htails⟩ := hcontinues
  have hold : ∀ number, ∃ front : List RawCommit, number < config.partitions →
      front <+: commitsIn before number ∧
        extent front = ((lastSaved state.2).get number).offset.toNat := by
    intro number
    by_cases hnumber : number < config.partitions
    · obtain ⟨front, hfront, hextent, -⟩ := hbefore.vouched number hnumber
      exact ⟨front, fun _ => ⟨hfront, hextent⟩⟩
    · exact ⟨[], fun hlt => absurd hlt hnumber⟩
  obtain ⟨old, hold⟩ := Classical.axiomOfChoice hold
  rw [hresumes, numbers_of_agrees h.orderly.agrees]
  have hbacked : Backed config run.commits
      ⟨lastSaved state.2, ((traced inner).load state).2, 0⟩ := by
    have hloaded : Told config run.commits ((traced inner).load state).2.2 := htold
    exact hloaded.backed 0
  exact ⟨h.path_eq, h.orderly.phase _, htold, hbacked, before, old, [], hfaces,
    replays_start hold htails rfl⟩

/-- **What a session does by itself keeps everything in order.** -/
theorem moves (h : Consistent config root folder home run) (hmoves : Moves inner run next) :
    Consistent config root folder home next := by
  have htold := h.told
  have hcontinues := h.continues
  cases hmoves with
  | began phase_eq own =>
    rw [phase_eq] at htold
    exact ⟨h.path_eq, h.orderly.phase _, htold, trivial⟩
  | registered phase_eq idle =>
    rw [phase_eq] at htold
    obtain ⟨horderly, hfaces⟩ := registered_faces h.orderly idle
    exact ⟨h.path_eq, horderly.phase _, htold, run.commits, hfaces, htold,
      fun number hnumber => tails_of_agrees h.orderly.agrees hnumber⟩
  | loaded phase_eq resumes => exact h.loaded phase_eq resumes
  | replayed phase_eq advance =>
    rw [phase_eq] at hcontinues
    obtain ⟨hbacked, before, old, taken, hfaces, hreplays⟩ := hcontinues
    obtain ⟨line, hcommits⟩ := hfaces.exists_line
    have hafter := advance_backed h.orderly.agrees hcommits hreplays hbacked advance
    obtain ⟨more, hsession⟩ := advance_inSession advance taken
    obtain ⟨_, _, hagain, hlater⟩ :=
      replays_advance h.orderly.agrees hcommits takesAll_neverFails hreplays
    obtain ⟨rfl, rfl⟩ := Prod.mk.inj (Except.ok.inj (hsession.symm.trans hagain))
    exact ⟨h.path_eq, h.orderly.phase _, hafter.told, hafter, before, old, _, hfaces, hlater⟩
  | replayBroken phase_eq =>
    rw [phase_eq] at hcontinues
    obtain ⟨hbacked, before, old, taken, hfaces, hreplays⟩ := hcontinues
    obtain ⟨line, hcommits⟩ := hfaces.exists_line
    have hnext := isNext_of_replays h.orderly.agrees hcommits hreplays
    exact h.ends (hbacked.handed h.orderly.agrees.history hnext inner).told
  | replayRefused phase_eq =>
    rw [phase_eq] at hcontinues
    obtain ⟨hbacked, before, old, taken, hfaces, hreplays⟩ := hcontinues
    obtain ⟨line, hcommits⟩ := hfaces.exists_line
    have hnext := isNext_of_replays h.orderly.agrees hcommits hreplays
    exact h.ends ((hbacked.handed h.orderly.agrees.history hnext inner).save inner).told
  | replaySaved phase_eq =>
    rw [phase_eq] at hcontinues
    exact h.ends (hcontinues.1.saveNew inner).told
  | switched phase_eq =>
    rw [phase_eq] at hcontinues htold
    obtain ⟨hbacked, before, old, taken, hfaces, hreplays⟩ := hcontinues
    refine ⟨h.path_eq, h.orderly.phase _, htold, hbacked.congr rfl rfl, before, hfaces, ?_⟩
    intro number hnumber
    rw [← hreplays.awaits.2 number hnumber (by simp)]
    exact hreplays.follows.reached number hnumber
  | polled phase_eq poll =>
    rw [phase_eq] at hcontinues
    obtain ⟨hbacked, seen, hfaces, hstands⟩ := hcontinues
    obtain ⟨horderly, hafter, hgoes⟩ := poll_backed h.orderly hbacked hfaces hstands poll
    obtain ⟨later, hlater, hbehind⟩ := hgoes (by simp)
    exact ⟨h.path_eq, horderly.phase _, hafter.told, hafter, later, hlater, hbehind⟩
  | @concluded checkpoint consumer follower polled turn queue phase_eq poll isOver =>
    rw [phase_eq] at hcontinues
    obtain ⟨hbacked, seen, hfaces, hstands⟩ := hcontinues
    obtain ⟨horderly, hafter, hgoes⟩ := poll_backed h.orderly hbacked hfaces hstands poll
    rcases hconclude : Delivery.conclude (traced inner) turn polled with ⟨ending, last⟩
    obtain ⟨hlast, hnone⟩ := conclude_backed hafter hconclude
    cases ending with
    | some ending => exact ⟨h.path_eq, horderly.phase _, hlast.told, trivial⟩
    | none =>
      obtain ⟨hturn, hreached⟩ := hnone rfl
      obtain ⟨later, hlater, hbehind⟩ := hgoes hturn
      exact ⟨h.path_eq, horderly.phase _, hlast.told, hlast, later, hlater, by
        rw [hreached]
        exact hbehind⟩
  | broken phase_eq poll isNew =>
    rw [phase_eq] at hcontinues
    obtain ⟨hbacked, seen, hfaces, hstands⟩ := hcontinues
    obtain ⟨horderly, hready, -⟩ := next_faces h.orderly hfaces poll
    obtain ⟨⟨rest, hcommits⟩, -⟩ := hready _ rfl
    obtain ⟨hisNext, -⟩ := isNext_of_stands h.orderly.agrees hcommits hstands
    exact ⟨h.path_eq, horderly.phase _, (hbacked.handed h.orderly.agrees.history hisNext inner).told,
      trivial⟩
  | cancelled phase_eq =>
    rw [phase_eq] at hcontinues
    exact h.ends (hcontinues.1.saveNew inner).told
  | left => exact h.ends htold

/-- **Whatever happens next, the subscriber is told what is right.** -/
theorem step (h : Consistent config root folder home run)
    (hstep : Step config root folder home inner run next) :
    Consistent config root folder home next := by
  cases hstep with
  | moves hmoves => exact h.moves hmoves
  | happens hhappens =>
    obtain ⟨horderly, hphase, hfaces⟩ := happens_orderly h.orderly hhappens
    have hgrows := commits_happens hhappens
    refine ⟨h.path_eq, horderly, ?_, ?_⟩
    · rw [hphase]
      exact h.told.mono hgrows
    · rw [hphase]
      exact h.continues.transport hgrows hfaces
  | stopped =>
    obtain ⟨hhalted, hfaces⟩ := stopped_halted h.orderly
    exact ⟨h.path_eq, .halted hhalted, h.told,
      h.continues.transport (List.prefix_refl _) fun seen consumer _ => hfaces seen consumer⟩
  | disconnected isClosed given =>
    cases horderly : h.orderly with
    | inOrder hopen =>
      rw [Queue.isClosed_of_sound hopen.queue] at isClosed
      simp at isClosed
    | halted hhalted =>
      have hagrees : Agrees config
          (Topic.wake { run.topic with queue := run.topic.queue.disconnect }) run.env.disk folder
            run.commits := hhalted.agrees.of_partitions rfl rfl
      obtain ⟨hlast, hfaces⟩ := disconnected_halted hhalted.shut given hagrees rfl
      exact ⟨h.path_eq, .halted hlast, h.told,
        h.continues.transport (List.prefix_refl _) fun seen consumer _ => hfaces seen consumer⟩
  | shut idle =>
    obtain ⟨hhalted, hfaces⟩ := shut_halted h.orderly idle
    exact ⟨h.path_eq, .halted hhalted, h.told,
      h.continues.transport (List.prefix_refl _) fun seen consumer _ => hfaces seen consumer⟩
  | reopened phase_eq isLeft valid partitions_eq limit_eq repairs recovered =>
    have htold := h.told
    rw [phase_eq] at htold
    obtain ⟨hagrees, hqueue, -⟩ := isLeft.agrees h.orderly.agrees.history h.path_eq valid
      partitions_eq limit_eq repairs recovered
    have hcommits : run.commits ++ Worker.commits .idle = run.commits := List.append_nil _
    refine ⟨h.path_eq, .inOrder ⟨?_, ?_, ?_⟩, ?_, trivial⟩
    · show Agrees config _ _ folder (run.commits ++ Worker.commits .idle)
      rw [hcommits]
      exact hagrees
    · rw [hqueue]
      exact Queue.sound_ofFanout _
    · rw [hqueue]
      exact Queue.isBusy_ofFanout _
    · show Told config (run.commits ++ Worker.commits .idle) _
      rw [hcommits]
      exact htold

end Consistent

theorem Reachable.consistent (h : Reachable config root folder home inner run) :
    Consistent config root folder home run := by
  induction h with
  | begins h =>
    refine ⟨h.path_eq, .inOrder (inOrder_begins h), ?_, ?_⟩
    · rw [h.phase]
      exact told_nil
    · rw [h.phase]
      exact trivial
  | step _ hstep ih => exact ih.step hstep

/-! ## What remains -/

theorem env_of_moves (hmoves : Moves inner run next) : next.env = run.env := by
  cases hmoves <;> rfl

theorem follows_of_begins {state : σ × List Event} (h : Begins config root folder home state run) :
    run.env.disk.follow (.directory top) root.segments = .ok (.directory home.directory) := by
  obtain ⟨life, hlife, hrest, -, settings, disk, hvalid, hpartitions, hlimit, hrun, henv⟩ :=
    h.opened
  have hconsistent := hlife.consistent
  obtain ⟨-, -, hroot, -⟩ := (hconsistent.rests hrest).recover hconsistent.sound
    hconsistent.reliable hconsistent.follows hvalid hpartitions hlimit hrun
  rw [henv]
  exact hroot

/-- The directory of the topic is where it was. -/
theorem Reachable.located (h : Reachable config root folder home inner run) :
    run.env.disk.follow (.directory top) root.segments = .ok (.directory home.directory) ∧
      run.env.disk.entryAt? home = some (.directory folder.directory) := by
  have hkept : ∀ {disk last : Disk}, disk.Sound → Keeps disk last (fun _ => False) →
      disk.follow (.directory top) root.segments = .ok (.directory home.directory) ∧
        disk.entryAt? home = some (.directory folder.directory) →
      last.follow (.directory top) root.segments = .ok (.directory home.directory) ∧
        last.entryAt? home = some (.directory folder.directory) :=
    fun hsound hkeeps hplace => ⟨hkeeps.follow hsound hsound.top_lt hplace.1,
      hkeeps.entryAt?_some _ _ hplace.2⟩
  induction h with
  | begins h => exact ⟨follows_of_begins h, h.entry⟩
  | step hreach hstep ih =>
    have hagrees := hreach.consistent.orderly.agrees
    cases hstep with
    | moves hmoves =>
      rw [env_of_moves hmoves]
      exact ih
    | happens hhappens => exact hkept hagrees.sound (keeps_happens hagrees hhappens) ih
    | stopped => exact ih
    | disconnected isClosed given => exact ih
    | shut idle =>
      obtain ⟨-, hkeeps⟩ := Topic.shutDown_agrees hagrees rfl
      exact hkept hagrees.sound (hkeeps.mono fun _ hnowhere => hnowhere.elim) ih
    | reopened phase_eq isLeft valid partitions_eq limit_eq repairs recovered =>
      obtain ⟨-, -, hkeeps⟩ := isLeft.agrees hagrees.history hreach.consistent.path_eq valid
        partitions_eq limit_eq repairs recovered
      exact hkept isLeft.sound hkeeps ⟨isLeft.follows, isLeft.entry⟩

/-- **Whatever has happened, the log can be left as it is**: everything that was committed remains on
the disk for the next time that the topic is opened. -/
theorem Reachable.remains (h : Reachable config root folder home inner run) :
    Remains config folder root home run.commits (fun _ => []) run.env.disk :=
  remains_of_agrees h.consistent.orderly.agrees h.located.1 h.located.2

end CommitLog.Resuming
