import CommitLog.Channel
import CommitLog.Proofs.ColdReplay.Chunks
import CommitLog.Proofs.Topic.ColdRead

/-!
# Cold replay is exact

A replay reads a partition chunk by chunk. A chunk that has been handed on as a whole leads on, since
a commit holds at least one entry; so the replay of a partition ends for no other reason than that
the bound is reached, that nothing is left, or that a commit was not handed on (`Loop`). What it has
handed on by then are the commits of the range, wherever the chunks were cut.
-/

namespace CommitLog.ColdReplay

open CommitLog.Disk (Place)
open CommitLog.Handover (IsBoundary extent extent_append extent_cons extent_le numbers_of_agrees
  read_of_agrees)
open CommitLog.Resuming (Event traced)
open CommitLog.Topic (Agrees Folder Life Reachable Service mem_partitionNumbers
  nodup_partitionNumbers partitionNumbers)

variable {σ : Type} {config : Config} {topic : Topic} {disk : Disk} {folder : Folder}
  {commits done front later : List RawCommit} {number : UInt32} {size : Nat}
  {subscriber : Subscriber σ} {start : Revisions}
  {follower : Follower (σ × List Event)}

/-! ## Loops -/

/-- The loop over a partition, with the reasons it has to end: the bound is reached, a read fails,
nothing is left, handing on fails, or a commit reaches beyond the bound. A chunk that was handed on
as a whole is followed by the next. -/
inductive Loop (subscriber : Subscriber σ) (read : Revision → Except LogError (List RawCommit))
    (number : UInt32) (bound : UInt64) :
    Follower σ → Except LogError Unit × Follower σ → Prop where
  | reached {follower : Follower σ} (le : bound ≤ (follower.reached.get number).offset) :
      Loop subscriber read number bound follower (.ok (), follower)
  | unreadable {follower : Follower σ} {error : LogError}
      (gt : ¬bound ≤ (follower.reached.get number).offset)
      (read_eq : read (follower.reached.get number) = .error error) :
      Loop subscriber read number bound follower (.error error, follower)
  | drained {follower : Follower σ} (gt : ¬bound ≤ (follower.reached.get number).offset)
      (read_eq : read (follower.reached.get number) = .ok []) :
      Loop subscriber read number bound follower (.ok (), follower)
  | failed {follower after : Follower σ} {chunk : List RawCommit} {error : LogError}
      (gt : ¬bound ≤ (follower.reached.get number).offset)
      (read_eq : read (follower.reached.get number) = .ok chunk) (some : chunk ≠ [])
      (run : Replay.handChunk subscriber (chunk.takeWhile (isWithin bound)) follower
        = (.error error, after)) :
      Loop subscriber read number bound follower (.error error, after)
  | cut {follower after : Follower σ} {chunk : List RawCommit}
      (gt : ¬bound ≤ (follower.reached.get number).offset)
      (read_eq : read (follower.reached.get number) = .ok chunk) (some : chunk ≠ [])
      (run : Replay.handChunk subscriber (chunk.takeWhile (isWithin bound)) follower
        = (.ok (), after))
      (lt : (chunk.takeWhile (isWithin bound)).length < chunk.length) :
      Loop subscriber read number bound follower (.ok (), after)
  | next {follower after : Follower σ} {chunk : List RawCommit}
      {out : Except LogError Unit × Follower σ}
      (gt : ¬bound ≤ (follower.reached.get number).offset)
      (read_eq : read (follower.reached.get number) = .ok chunk) (some : chunk ≠ [])
      (run : Replay.handChunk subscriber (chunk.takeWhile (isWithin bound)) follower
        = (.ok (), after))
      (ge : ¬(chunk.takeWhile (isWithin bound)).length < chunk.length)
      (more : Loop subscriber read number bound after out) :
      Loop subscriber read number bound follower out

/-- The loops over several partitions, one after another, up to the first that fails. -/
inductive Loops (subscriber : Subscriber σ) (read : Revision → Except LogError (List RawCommit))
    (stop : Revisions) : List UInt32 → Follower σ → Except LogError Unit × Follower σ → Prop where
  | over {follower : Follower σ} : Loops subscriber read stop [] follower (.ok (), follower)
  | failed {number : UInt32} {later : List UInt32} {follower after : Follower σ} {error : LogError}
      (loop : Loop subscriber read number (stop.get number).offset follower (.error error, after)) :
      Loops subscriber read stop (number :: later) follower (.error error, after)
  | next {number : UInt32} {later : List UInt32} {follower after : Follower σ}
      {out : Except LogError Unit × Follower σ}
      (loop : Loop subscriber read number (stop.get number).offset follower (.ok (), after))
      (more : Loops subscriber read stop later after out) :
      Loops subscriber read stop (number :: later) follower out

theorem handChunk_nil (hsettled : Settled start done follower) :
    Replay.handChunk (traced subscriber) [] follower = (.ok (), follower) := by
  simp only [Replay.handChunk, Replay.handAll, Follower.saveNew, if_pos hsettled.unsaved]

/-- A follower that has been handed the next commits of a partition stands behind them. -/
theorem Stands.get_reached {chunk : List RawCommit} {after : Follower (σ × List Event)}
    (h : Agrees config topic disk folder commits) (hnumber : number < config.partitions)
    (hsplit : commitsIn commits number = front ++ (chunk ++ later))
    (hstands : Stands start done follower) (hafter : Stands start (done ++ chunk) after)
    (hreached : (follower.reached.get number).offset.toNat = extent front) :
    (after.reached.get number).offset.toNat = extent (front ++ chunk) := by
  rw [hafter.reached, behind_append, ← hstands.reached]
  exact get_behind_of_split h.history (extent_le h hnumber) chunk front _ hsplit hreached

/-- The first commits that satisfy a condition, in a row that is cut into a chunk and the rest. -/
theorem takeWhile_of_chunk (p : RawCommit → Bool) (size : Nat) (row : List RawCommit) :
    row.takeWhile p
      = (row.take size).takeWhile p
        ++ if ((row.take size).takeWhile p).length < (row.take size).length then []
          else (row.drop size).takeWhile p := by
  have hle := (List.takeWhile_prefix p (l := row.take size)).length_le
  conv_lhs => rw [← List.take_append_drop size row, List.takeWhile_append]
  by_cases hwhole : ((row.take size).takeWhile p).length = (row.take size).length
  · rw [if_pos hwhole, if_neg (by omega), (List.takeWhile_prefix p).eq_of_length hwhole]
  · rw [if_neg hwhole, if_pos (by omega), List.append_nil]

section Partitions

variable (h : Agrees config topic disk folder commits) (hnumber : number < config.partitions)
  (hsplit : commitsIn commits number = front ++ later)
  (hreached : (follower.reached.get number).offset.toNat = extent front)

include h hnumber hsplit hreached

/-- A round reads the next commits of a partition. -/
theorem take_of_read {chunk : List RawCommit}
    (hread : topic.read disk (follower.reached.get number) size = .ok chunk) :
    later.take size = chunk :=
  Except.ok.inj ((read_of_agrees h hnumber rfl hsplit hreached size).symm.trans hread)

/-- **A chunk that was handed on as a whole leads on.** -/
theorem leads_on {after : Follower (σ × List Event)} (hstands : Stands start done follower)
    (hafter : Stands start (done ++ later.take size) after) :
    (after.reached.get number).offset.toNat = extent (front ++ later.take size) ∧
      (later.take size ≠ [] →
        ¬(after.reached.get number).offset ≤ (follower.reached.get number).offset) := by
  have hchunk : commitsIn commits number = front ++ (later.take size ++ later.drop size) := by
    rw [List.take_append_drop, hsplit]
  have hplace := hstands.get_reached h hnumber hchunk hafter hreached
  refine ⟨hplace, fun hsome => ?_⟩
  obtain ⟨commit, rest, hcons⟩ := List.exists_cons_of_ne_nil hsome
  have hentries := List.length_pos_iff.2 (Handover.entries_ne_of_mem h.history number commit (by
    rw [hchunk, hcons]
    simp))
  rw [UInt64.le_iff_toNat_le, hplace, hreached, extent_append, hcons, extent_cons]
  omega

/-- **A partition is replayed up to the bound**, whatever its chunks, and its loop comes to an
end. -/
theorem partition_came (hsize : 0 < size) (hanswers : Answers subscriber)
    (hsettled : Settled start done follower) (bound : UInt64) :
    Came subscriber start done (later.takeWhile (isWithin bound))
        (Replay.partition (traced subscriber) (fun position => topic.read disk position size)
          number bound follower) ∧
      Loop (traced subscriber) (fun position => topic.read disk position size) number bound follower
        (Replay.partition (traced subscriber) (fun position => topic.read disk position size)
          number bound follower) := by
  -- on the rounds of the loop; each begins behind the commits in front, and has the later ones to do
  fun_induction Replay.partition (traced subscriber)
    (fun position => topic.read disk position size) number bound follower
    generalizing front later done with
  | case1 follower hstop =>
    refine ⟨?_, .reached hstop⟩
    rw [UInt64.le_iff_toNat_le, hreached] at hstop
    rw [takeWhile_of_reached h.history (extent_le h hnumber) hsplit hstop]
    refine .through ?_
    rw [List.append_nil]
    exact hsettled
  | case2 follower hstop e hread =>
    rw [read_of_agrees h hnumber rfl hsplit hreached] at hread
    simp at hread
  | case3 follower hstop chunk hread within e after =>
    rename_i hrun
    obtain rfl := take_of_read h hnumber hsplit hreached hread
    have hcame := handChunk_came hanswers hsettled within
    rw [hrun] at hcame
    have hsome : later.take size ≠ [] := by
      intro hnone
      rw [show within = [] by simp only [within, hnone, List.takeWhile_nil],
        handChunk_nil hsettled] at hrun
      simp at hrun
    refine ⟨?_, .failed hstop hread hsome hrun⟩
    rw [takeWhile_of_chunk _ size later]
    exact hcame.append_of_error _
  | case4 follower hstop chunk hread within after hrun =>
    rename_i hends
    obtain rfl := take_of_read h hnumber hsplit hreached hread
    have hcame := handChunk_came hanswers hsettled within
    rw [hrun] at hcame
    by_cases hcut : within.length < (later.take size).length
    · have hsome : later.take size ≠ [] := List.length_pos_iff.1 (Nat.zero_lt_of_lt hcut)
      refine ⟨?_, .cut hstop hread hsome hrun hcut⟩
      have hdue : later.takeWhile (isWithin bound) = within ++ [] :=
        (takeWhile_of_chunk _ size later).trans (congrArg _ (if_pos hcut))
      rw [hdue, List.append_nil]
      exact hcame
    · -- a whole chunk that does not lead on is empty, and then nothing is left
      have hwhole : within = later.take size :=
        (List.takeWhile_prefix _).eq_of_length_le (Nat.not_lt.1 hcut)
      have hnone : later.take size = [] := by
        by_contra hsome
        have hleads := leads_on h hnumber hsplit hreached hsettled.toStands
          (hwhole ▸ hcame.settled.toStands)
        exact hleads.2 hsome (hends.resolve_left hcut)
      have hlater : later = [] := by
        simpa [Nat.ne_of_gt hsize] using hnone
      rw [hnone] at hread
      rw [hwhole, hnone, handChunk_nil hsettled] at hrun
      rw [hwhole, hnone] at hcame
      obtain ⟨-, rfl⟩ := Prod.mk.inj hrun
      rw [hlater]
      exact ⟨hcame, .drained hstop hread⟩
  | case5 follower hstop chunk hread within after hrun hgoes =>
    rename_i ih
    obtain rfl := take_of_read h hnumber hsplit hreached hread
    obtain ⟨hcut, hmoved⟩ := not_or.1 hgoes
    have hcame := handChunk_came hanswers hsettled within
    rw [hrun] at hcame
    have hwhole : within = later.take size :=
      (List.takeWhile_prefix _).eq_of_length_le (Nat.not_lt.1 hcut)
    have hsome : later.take size ≠ [] := by
      intro hnone
      rw [hwhole, hnone, handChunk_nil hsettled] at hrun
      obtain ⟨-, rfl⟩ := Prod.mk.inj hrun
      exact hmoved (UInt64.le_refl _)
    have hafter := hcame.settled
    rw [hwhole] at hafter
    obtain ⟨hplace, -⟩ :=
      leads_on h hnumber hsplit hreached hsettled.toStands hafter.toStands
    have hnext : commitsIn commits number = front ++ later.take size ++ later.drop size := by
      rw [List.append_assoc, List.take_append_drop, hsplit]
    obtain ⟨hlater, hloop⟩ := ih hnext hplace hafter
    refine ⟨?_, .next hstop hread hsome hrun hcut hloop⟩
    have hdue : later.takeWhile (isWithin bound)
        = within ++ (later.drop size).takeWhile (isWithin bound) :=
      (takeWhile_of_chunk _ size later).trans (congrArg _ (if_neg hcut))
    rw [hdue, hwhole]
    exact hlater.append

end Partitions

/-! ## Replays -/

/-- **Partitions are replayed one after another.** -/
theorem partitions_came {tails : Revisions} (h : Agrees config topic disk folder commits)
    (hsize : 0 < size) (hanswers : Answers subscriber)
    (hboundary : IsBoundary config commits start tails) (stop : Revisions) :
    ∀ (numbers : List UInt32) (done : List RawCommit) (follower : Follower (σ × List Event)),
      (∀ number ∈ numbers, number < config.partitions) → numbers.Nodup →
      (∀ commit ∈ done, commit.partition ∉ numbers) → Settled start done follower →
      Came subscriber start done (numbers.flatMap (dueIn commits start stop))
          (Replay.partitions (traced subscriber) (fun position => topic.read disk position size)
            stop numbers follower) ∧
        Loops (traced subscriber) (fun position => topic.read disk position size) stop numbers
          follower (Replay.partitions (traced subscriber)
            (fun position => topic.read disk position size) stop numbers follower) := by
  intro numbers
  induction numbers with
  | nil =>
    intro done follower _ _ _ hsettled
    refine ⟨.through ?_, .over⟩
    rw [List.flatMap_nil, List.append_nil]
    exact hsettled
  | cons number numbers ih =>
    intro done follower hnumbers hnodup hapart hsettled
    obtain ⟨hnumber, hlater⟩ := List.forall_mem_cons.1 hnumbers
    obtain ⟨hfresh, hnodup⟩ := List.nodup_cons.1 hnodup
    obtain ⟨front, later, hsplit, hextent, -⟩ := hboundary number hnumber
    -- nothing of the partition has been handed on so far
    have hreached : (follower.reached.get number).offset.toNat = extent front := by
      rw [hsettled.reached, get_behind_of_ne, hextent]
      rintro commit hcommit rfl
      exact hapart commit hcommit List.mem_cons_self
    obtain ⟨hcame, hloop⟩ :=
      partition_came h hnumber hsplit hreached hsize hanswers hsettled (stop.get number).offset
    rw [← dueIn_of_split h.history (extent_le h hnumber) hsplit hextent stop] at hcame
    simp only [Replay.partitions, List.flatMap_cons]
    rcases hrun : Replay.partition (traced subscriber)
      (fun position => topic.read disk position size) number (stop.get number).offset follower
      with ⟨result, after⟩
    rw [hrun] at hcame hloop
    cases result with
    | error e => exact ⟨hcame.append_of_error _, .failed hloop⟩
    | ok _ =>
      have hdone : ∀ commit ∈ done ++ dueIn commits start stop number,
          commit.partition ∉ numbers := by
        intro commit hcommit
        rcases List.mem_append.1 hcommit with hcommit | hcommit
        · exact fun hmem => hapart commit hcommit (List.mem_cons_of_mem _ hmem)
        · rw [partition_of_mem_dueIn hcommit]
          exact hfresh
      obtain ⟨hrest, hloops⟩ := ih _ after hlater hnodup hdone hcame.settled
      exact ⟨hrest.append, .next hloop hloops⟩

/-- What a subscriber was told by a replay that it took everything of. -/
structure Served (start : Revisions) (due : List RawCommit) (events : List Event) : Prop where
  handings : handings events = asTaken due
  accounts : Accounts start events
  last : due ≠ [] → events.getLast? = some (.saved (behind start due) (.ok ()))

/-- What a replay comes to: everything is taken, or there is a first commit that is refused. -/
inductive Outcome (subscriber : Subscriber σ) (start : Revisions) (due : List RawCommit) :
    Except LogError Revisions → List Event → Prop where
  | through {events : List Event} (served : Served start due events) :
      Outcome subscriber start due (.ok (behind start due)) events
  | refused {front later : List RawCommit} {commit : RawCommit} {error : LogError}
      {events : List Event} (split : due = front ++ commit :: later)
      (answer : ∃ own, (subscriber.handle commit own).1 = .refused error)
      (refused : Refused start front commit error events) :
      Outcome subscriber start due (.error error) events

theorem Outcome.of_neverFails {due : List RawCommit} {result : Except LogError Revisions}
    {events : List Event} (h : Outcome subscriber start due result events)
    (hnever : subscriber.NeverFails) :
    result = .ok (behind start due) ∧ Served start due events := by
  cases h with
  | through served => exact ⟨rfl, served⟩
  | refused split answer refused =>
    obtain ⟨own, hrefused⟩ := answer
    rw [hnever.handle] at hrefused
    exact Handled.noConfusion hrefused

/-- **A replay hands on the commits of its range**, whatever the size of its chunks, and comes to
an end. -/
theorem replay_outcome {tails : Revisions} (h : Agrees config topic disk folder commits)
    (hsize : 0 < size) (hanswers : Answers subscriber)
    (hboundary : IsBoundary config commits start tails) (stop : Revisions) (own : σ) :
    ∃ out : Except LogError Unit × Follower (σ × List Event),
      Loops (traced subscriber) (fun position => topic.read disk position size) stop
        (partitionNumbers config) ⟨start, (own, []), 0⟩ out ∧
      topic.replay disk (traced subscriber) size start stop (own, [])
        = (out.1.map fun () => out.2.reached, out.2.state) ∧
      Outcome subscriber start (due config commits start stop)
        (out.1.map fun () => out.2.reached) out.2.state.2 := by
  obtain ⟨hcame, hloops⟩ := partitions_came h hsize hanswers hboundary stop
    (partitionNumbers config) [] _ (fun number hmem => mem_partitionNumbers.1 hmem)
    (nodup_partitionNumbers config) (by simp) (settled_start start own)
  refine ⟨_, hloops, ?_, ?_⟩
  · simp only [Topic.replay, numbers_of_agrees h]
  · generalize Replay.partitions _ _ _ _ _ = out at hcame
    cases hcame with
    | @through after settled =>
      show Outcome subscriber start _ (.ok after.reached) after.state.2
      rw [settled.reached]
      exact .through ⟨settled.handings, settled.accounts, settled.last⟩
    | refused split answer refused => exact .refused split answer refused

/-- **Cold replay is exact.** Whatever has happened to a topic, a replay from a checkpoint between
commits up to any bound comes to an end. A subscriber that takes everything is handed the commits of
the range, each once, partition by partition and in order, and the answer is the checkpoint behind
them, which was kept last; when a commit is refused, those before it have been taken, and the
checkpoint kept last is the one in front of it. Every checkpoint on the way is where the commits that
had been taken led. Nothing of this depends on the size of the chunks. -/
theorem cold_replay_is_exact {root : Path} {home : Place} {life : Life} {service : Service}
    {channel after : Channel} {env : Env} (h : Reachable config root home life)
    (hservice : life.service = some service)
    (hopen : channel.topic home.name env = (.ok service, after, life.env))
    (hanswers : Answers subscriber)
    (hstart : IsBoundary config life.commits start service.topic.tails) (stop : Option Revisions)
    (own : σ) :
    let bound := stop.getD service.topic.tails
    let wanted := due config life.commits start bound
    channel.load home.name (traced subscriber) start stop (own, []) env
      = (service.topic.replay life.env.disk (traced subscriber) Replay.chunkSize start bound (own, []),
          after, life.env) ∧
    ∀ size, 0 < size → ∃ out : Except LogError Unit × Follower (σ × List Event),
      Loops (traced subscriber) (fun position => service.topic.read life.env.disk position size)
        bound (partitionNumbers config) ⟨start, (own, []), 0⟩ out ∧
      service.topic.replay life.env.disk (traced subscriber) size start bound (own, [])
        = (out.1.map fun () => out.2.reached, out.2.state) ∧
      Outcome subscriber start wanted (out.1.map fun () => out.2.reached) out.2.state.2 ∧
      (subscriber.NeverFails → (out.1.map fun () => out.2.reached) = .ok (behind start wanted) ∧
        Served start wanted out.2.state.2) := by
  intro bound wanted
  obtain ⟨folder, hagrees⟩ := h.consistent.exists_agrees hservice
  constructor
  · simp only [Channel.load, hopen]
    rfl
  · intro size hsize
    obtain ⟨out, hloops, hrun, houtcome⟩ := replay_outcome hagrees hsize hanswers hstart bound own
    exact ⟨out, hloops, hrun, houtcome, houtcome.of_neverFails⟩

theorem isBoundary_empty (config : Config) (commits : List RawCommit) (tails : Revisions) :
    IsBoundary config commits .empty tails := by
  intro number _
  refine ⟨[], commitsIn commits number, rfl, rfl, ?_⟩
  rw [UInt64.le_iff_toNat_le]
  exact Nat.zero_le _

/-- A bound inside the second of two commits. -/
theorem cold_replay_is_exact_of_bound_inside :
    let config : Config := { maxEntryBytes := 2, maxMapBytes := 2 }
    let attentive : Subscriber Unit :=
      { load := fun state => (.empty, state)
        handle := fun _ state => (.taken, state)
        save := fun _ state => (.ok (), state) }
    ∃ (life : Life) (channel : Channel) (first second : RawCommit) (events : List Event),
      Reachable config ⟨["", ""]⟩ ⟨0, "t"⟩ life ∧ life.commits = [first, second] ∧
        (channel.load "t" (traced attentive) .empty (some (.ofList [⟨0, 2⟩])) ((), []) life.env).1
          = (.ok (behind .empty [first]), (), events) ∧
        handings events = [(first, .taken)] ∧
        events.getLast? = some (.saved (behind .empty [first]) (.ok ())) := by
  intro config attentive
  let attempts : List RawAttempt :=
    [{ key := [107], entries := [[118]], expected := .origin 0 },
      { key := [107], entries := [[119], [120]], expected := ⟨0, 1⟩ }]
  have hcomputed : (Topic.recover config ⟨["", ""]⟩ "t" {}).1.toOption.map (fun topic =>
      let commits := (((Service.start topic 1024).submit (.append attempts)).2.settle
        { disk := (Topic.recover config ⟨["", ""]⟩ "t" {}).2 }).1.commits
      (commits.length, due config commits .empty (.ofList [⟨0, 2⟩]) == commits.take 1))
        = some (2, true) := by
    decide +kernel
  have hfresh : Topic.Fresh ⟨["", ""]⟩ ⟨0, "t"⟩ {} :=
    ⟨by decide, rfl, rfl, rfl, Disk.entryAt?_new _, Disk.sound_new, by simp [Disk.Reliable]⟩
  rcases hrecover : Topic.recover config ⟨["", ""]⟩ "t" {} with ⟨result, disk⟩
  rw [hrecover] at hcomputed
  cases result with
  | error failure => simp [Except.toOption] at hcomputed
  | ok topic =>
    obtain ⟨hcount, hdue⟩ := Prod.mk.inj (Option.some.inj hcomputed)
    let served := ((Service.start topic 1024).submit (.append attempts)).2.settle { disk }
    let last : Life := { service := some served.1, env := served.2 }
    let channel : Channel := { root := ⟨["", ""]⟩, config, services := [("t", served.1)] }
    have hlife : Reachable config ⟨["", ""]⟩ ⟨0, "t"⟩ last :=
      (((Reachable.fresh hfresh).step (.opened rfl (by decide) rfl rfl hrecover)).step
        (.submitted rfl (.append attempts))).step (.settled rfl)
    have hnever : attentive.NeverFails := ⟨fun _ _ => rfl, fun _ _ => rfl⟩
    have hserves : channel.topic "t" last.env = (.ok served.1, channel, last.env) := rfl
    obtain ⟨hload, hsizes⟩ := cold_replay_is_exact hlife rfl hserves (answers_of_neverFails hnever)
      (isBoundary_empty config last.commits _) (some (.ofList [⟨0, 2⟩])) ()
    obtain ⟨out, -, hrun, -, hserved⟩ := hsizes Replay.chunkSize (by decide)
    obtain ⟨hresult, hevents⟩ := hserved hnever
    have hlength : last.commits.length = 2 := hcount
    have hwanted : due config last.commits .empty (.ofList [⟨0, 2⟩]) = last.commits.take 1 :=
      eq_of_beq hdue
    obtain ⟨first, second, hcommits⟩ := List.length_eq_two.1 hlength
    rw [Option.getD_some, hwanted, hcommits] at hresult hevents
    refine ⟨last, channel, first, second, out.2.state.2, hlife, hcommits, ?_, hevents.handings,
      hevents.last (by simp)⟩
    rw [hload, hrun, hresult]
    rfl

end CommitLog.ColdReplay
