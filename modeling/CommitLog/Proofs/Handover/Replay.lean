import CommitLog.Proofs.Handover.Positions
import CommitLog.Proofs.Revisions

/-!
# The replay of what was committed before

A replay goes up to the tails at the registration, while the log grows on behind them. A chunk that
it reads may reach beyond the tail of its partition; what it hands on does not (`takeWhile_take`).
So of every partition it hands on a front of what the subscriber has missed, and when it is through,
all of it: `replays_advance`.
-/

namespace CommitLog.Handover

open CommitLog.Topic (Agrees Folder IsHistory)

variable {σ : Type} {config : Config} {topic : Topic} {disk : Disk} {folder : Folder}
  {commits before line : List RawCommit} {old : UInt32 → List RawCommit}
  {checkpoint stop : Revisions} {inner : Subscriber σ} {todo : Replaying}
  {follower : Follower (σ × List RawCommit)} {commit : RawCommit} {number : UInt32}

/-! ## Subscribers that never fail -/

theorem recorded_handle (h : inner.NeverFails) (commit : RawCommit)
    (state : σ × List RawCommit) :
    ∃ own, inner.recorded.handle commit state = (.taken, own, state.2 ++ [commit]) := by
  rcases hrun : inner.handle commit state.1 with ⟨handled, own⟩
  have htaken := h.handle commit state.1
  rw [hrun] at htaken
  obtain rfl : handled = .taken := htaken
  exact ⟨own, by simp only [Subscriber.recorded, hrun]⟩

theorem recorded_saveNew (h : inner.NeverFails) (follower : Follower (σ × List RawCommit)) :
    ∃ after, follower.saveNew inner.recorded = (.ok (), after) ∧
      after.reached = follower.reached ∧ after.state.2 = follower.state.2 := by
  unfold Follower.saveNew
  split
  next => exact ⟨follower, rfl, rfl, rfl⟩
  next =>
    have hsave := h.save follower.reached follower.state.1
    exact ⟨_, Prod.ext hsave rfl, rfl, rfl⟩

/-! ## Followers -/

/-- A follower has begun at the checkpoint, and stands behind what it has taken. -/
structure Follows (config : Config) (old : UInt32 → List RawCommit) (checkpoint : Revisions)
    (follower : Follower (σ × List RawCommit)) : Prop where
  checkpoint : ∀ number, number < config.partitions →
    extent (old number) = (checkpoint.get number).offset.toNat
  reached : ∀ number, number < config.partitions →
    (follower.reached.get number).offset.toNat
      = extent (old number ++ commitsIn follower.state.2 number)

theorem Follows.congr {after : Follower (σ × List RawCommit)}
    (h : Follows config old checkpoint follower) (hreached : after.reached = follower.reached)
    (hstate : after.state.2 = follower.state.2) : Follows config old checkpoint after where
  checkpoint := h.checkpoint
  reached := by
    rw [hreached, hstate]
    exact h.reached

theorem commitsIn_snoc (taken : List RawCommit) (commit : RawCommit) (number : UInt32) :
    commitsIn (taken ++ [commit]) number
      = commitsIn taken number ++ if number = commit.partition then [commit] else [] := by
  rw [Partition.commitsIn_append, Partition.commitsIn_singleton]

/-- A commit that comes right behind moves a follower on. -/
theorem Follows.taken (h : Follows config old checkpoint follower)
    (hlt : commit.partition < config.partitions)
    (hactual : commit.actual.offset.toNat
      = extent (old commit.partition ++ commitsIn follower.state.2 commit.partition)
        + commit.entries.length) (own : σ) :
    Follows config old checkpoint
      (follower.taken commit (own, follower.state.2 ++ [commit])) where
  checkpoint := h.checkpoint
  reached number hnumber := by
    have hreached := h.reached commit.partition hlt
    have hle : (follower.reached.get commit.partition).offset ≤ commit.actual.offset := by
      rw [UInt64.le_iff_toNat_le, hreached, hactual]
      exact Nat.le_add_right _ _
    have hget : (follower.taken commit (own, follower.state.2 ++ [commit])).reached.get number
        = if number = commit.partition then commit.actual else follower.reached.get number :=
      Revisions.get_advance_of_le hle number
    rw [hget]
    show _ = extent (old number ++ commitsIn (follower.state.2 ++ [commit]) number)
    rw [commitsIn_snoc]
    -- only the partition of the commit moves on
    by_cases hsame : number = commit.partition
    · subst hsame
      rw [if_pos rfl, if_pos rfl, hactual, ← List.append_assoc, extent_append _ [commit]]
      rfl
    · rw [if_neg hsame, if_neg hsame, List.append_nil, h.reached number hnumber]

/-! ## Replays -/

/-- All that the subscriber has missed of a partition has been handed on. -/
def CaughtUp (before taken : List RawCommit) (old : UInt32 → List RawCommit) (number : UInt32) :
    Prop := old number ++ commitsIn taken number = commitsIn before number

/-- What a replay has still to do is what the subscriber has still missed. -/
def Awaits (config : Config) (before taken : List RawCommit) (old : UInt32 → List RawCommit) :
    Replaying → Prop
  | .between numbers =>
    (∀ number ∈ numbers, number < config.partitions) ∧
      ∀ number, number < config.partitions → number ∉ numbers → CaughtUp before taken old number
  | .handing number later start rest whole =>
    number < config.partitions ∧ (∀ other ∈ later, other < config.partitions) ∧
      (∀ other, other < config.partitions → other ∉ number :: later →
        CaughtUp before taken old other) ∧
      start.toNat < extent (old number ++ commitsIn taken number ++ rest) ∧
      ∃ missed, old number ++ commitsIn taken number ++ rest ++ missed = commitsIn before number ∧
        (whole = false → missed = [])

/-- A replay up to the tails at the registration, at some point on its way. -/
structure Replays (config : Config) (before : List RawCommit) (old : UInt32 → List RawCommit)
    (checkpoint stop : Revisions) (todo : Replaying) (follower : Follower (σ × List RawCommit)) :
    Prop where
  follows : Follows config old checkpoint follower
  tails : ∀ number, number < config.partitions →
    (stop.get number).offset.toNat = extent (commitsIn before number)
  front : ∀ number, number < config.partitions →
    old number ++ commitsIn follower.state.2 number <+: commitsIn before number
  awaits : Awaits config before follower.state.2 old todo

theorem takeWhile_take {α : Type} {p : α → Bool} {front later : List α}
    (hfront : ∀ x ∈ front, p x = true) (hlater : ∀ x ∈ later, p x = false) (count : Nat) :
    ((front ++ later).take count).takeWhile p = front.take count := by
  have hrest : (later.take (count - front.length)).takeWhile p = [] := by
    cases hhead : later.take (count - front.length) with
    | nil => rfl
    | cons x rest =>
      have hx : x ∈ later := List.mem_of_mem_take (by rw [hhead]; exact List.mem_cons_self)
      rw [List.takeWhile_cons_of_neg]
      rw [hlater x hx]
      exact Bool.false_ne_true
  rw [List.take_append, List.takeWhile_append_of_pos, hrest, List.append_nil]
  exact fun x hx => hfront x (List.mem_of_mem_take hx)

section Advance

variable (h : Agrees config topic disk folder commits) (hcommits : commits = before ++ line)

include h hcommits

/-- A commit from before the registration ends no later than the tail, and one from after it
does. -/
theorem actual_le_iff (hnumber : number < config.partitions) {front later : List RawCommit}
    (hsplit : commitsIn commits number = front ++ commit :: later) :
    commit.partition = number ∧ commit.entries ≠ [] ∧
      commit.actual.offset.toNat = extent front + commit.entries.length ∧
      (commit.actual.offset.toNat ≤ extent (commitsIn before number) ↔
        front.length < (commitsIn before number).length) := by
  obtain ⟨-, hpartition, hactual⟩ := place_of_split h.history (extent_le h hnumber) hsplit
  have hpos := entries_ne_of_mem h.history number
  have hmem : commit ∈ commitsIn commits number := by
    rw [hsplit]
    simp
  have hentries := List.length_pos_iff.2 (hpos commit hmem)
  have hbefore : commitsIn before number <+: commitsIn commits number := by
    rw [hcommits, Partition.commitsIn_append]
    exact List.prefix_append _ _
  have hfront : front <+: commitsIn commits number := by
    rw [hsplit]
    exact List.prefix_append _ _
  have hnext : front ++ [commit] <+: commitsIn commits number :=
    ⟨later, by rw [hsplit, List.append_assoc, List.singleton_append]⟩
  -- fronts of one row are compared by their extents one way, and by their lengths the other
  refine ⟨hpartition, hpos commit hmem, hactual, fun hle => ?_, fun hlt => ?_⟩
  · have hinside := prefix_of_extent_le hpos hnext hbefore (by
      rw [extent_append, extent_cons, extent_nil]
      omega)
    have hlength := hinside.length_le
    rw [List.length_append, List.length_singleton] at hlength
    omega
  · have hinside : front ++ [commit] <+: commitsIn before number :=
      List.prefix_of_prefix_length_le hnext hbefore (by
        rw [List.length_append, List.length_singleton]
        omega)
    obtain ⟨rest, hrest⟩ := hinside
    rw [← hrest, extent_append, extent_append, extent_cons, extent_nil]
    omega

/-- What a read has found up to the tail is what was committed before the registration. -/
theorem takeWhile_of_tail (hnumber : number < config.partitions) {front missed : List RawCommit}
    (hmissed : front ++ missed = commitsIn before number) {tail : UInt64}
    (htail : tail.toNat = extent (commitsIn before number)) (count : Nat) :
    ((missed ++ commitsIn line number).take count).takeWhile
        (fun commit => decide (commit.actual.offset ≤ tail)) = missed.take count := by
  have hall : commitsIn commits number = commitsIn before number ++ commitsIn line number := by
    rw [hcommits, Partition.commitsIn_append]
  refine takeWhile_take ?_ ?_ count
  · intro commit hcommit
    obtain ⟨passed, rest, rfl⟩ := List.append_of_mem hcommit
    have hplace : commitsIn commits number
        = (front ++ passed) ++ commit :: (rest ++ commitsIn line number) := by
      rw [hall, ← hmissed]
      simp only [List.append_assoc, List.cons_append]
    obtain ⟨-, -, -, hinside⟩ := actual_le_iff h hcommits hnumber hplace
    rw [decide_eq_true_eq, UInt64.le_iff_toNat_le, htail, hinside, ← hmissed]
    simp only [List.length_append, List.length_cons]
    omega
  · intro commit hcommit
    obtain ⟨passed, rest, hline⟩ := List.append_of_mem hcommit
    have hplace : commitsIn commits number
        = (commitsIn before number ++ passed) ++ commit :: rest := by
      rw [hall, hline, List.append_assoc]
    obtain ⟨-, -, -, houtside⟩ := actual_le_iff h hcommits hnumber hplace
    rw [decide_eq_false_iff_not, UInt64.le_iff_toNat_le, htail, houtside]
    simp only [List.length_append]
    omega

/-- A replay looks at a partition: it has handed on all of it, or it reads on. -/
theorem replays_between {later : List UInt32}
    (hreplays : Replays config before old checkpoint stop (.between (number :: later)) follower)
    (subscriber : Subscriber (σ × List RawCommit)) :
    ∃ moved, Replaying.advance subscriber
        (fun start => topic.read disk start Replay.chunkSize) stop (.between (number :: later))
        follower = .ok (moved, follower) ∧
      Replays config before old checkpoint stop moved follower := by
  obtain ⟨hfollows, htails, hfront, hnumbers, hothers⟩ := hreplays
  have hnumber := hnumbers number List.mem_cons_self
  have hlater : ∀ other ∈ later, other < config.partitions :=
    fun other hother => hnumbers other (List.mem_cons_of_mem _ hother)
  have hreached := hfollows.reached number hnumber
  have htail := htails number hnumber
  have hbefore : commitsIn commits number = commitsIn before number ++ commitsIn line number := by
    rw [hcommits, Partition.commitsIn_append]
  have hpos : ∀ commit ∈ commitsIn before number, commit.entries ≠ [] := by
    intro commit hcommit
    refine entries_ne_of_mem h.history number commit ?_
    rw [hbefore]
    exact List.mem_append_left _ hcommit
  obtain ⟨missed, hmissed⟩ := hfront number hnumber
  simp only [Replaying.advance]
  -- the tail is the extent of what was committed before, so at the tail nothing is missing
  by_cases hdone : (stop.get number).offset ≤ (follower.reached.get number).offset
  · rw [if_pos hdone]
    refine ⟨_, rfl, hfollows, htails, hfront, hlater, ?_⟩
    intro other hother hnot
    by_cases hsame : other = number
    · rw [UInt64.le_iff_toNat_le, htail, hreached] at hdone
      rw [hsame]
      exact eq_of_extent_le hpos (hfront number hnumber) hdone
    · exact hothers other hother (by simp [hsame, hnot])
  · rw [if_neg hdone]
    have hsplit : commitsIn commits number
        = (old number ++ commitsIn follower.state.2 number)
          ++ (missed ++ commitsIn line number) := by
      rw [hbefore, ← hmissed, List.append_assoc _ missed]
    rw [read_of_agrees h hnumber rfl hsplit hreached]
    have hwithin := takeWhile_of_tail h hcommits hnumber hmissed htail Replay.chunkSize
    simp only [hwithin]
    refine ⟨_, rfl, hfollows, htails, hfront, hnumber, hlater, hothers, ?_,
      missed.drop Replay.chunkSize, ?_, ?_⟩
    · rw [hreached, extent_append _ (missed.take Replay.chunkSize)]
      -- a chunk is not empty as long as something is missing
      cases missed with
      | nil =>
        rw [List.append_nil] at hmissed
        rw [UInt64.le_iff_toNat_le, htail, hreached, hmissed] at hdone
        exact absurd (Nat.le_refl _) hdone
      | cons commit rest =>
        have hentries := List.length_pos_iff.2 (hpos commit (by rw [← hmissed]; simp))
        rw [show Replay.chunkSize = 255 + 1 from rfl, List.take_succ_cons, extent_cons]
        omega
    · rw [List.append_assoc, List.take_append_drop, hmissed]
    · intro hpart
      rw [decide_eq_false_iff_not, List.length_take, List.length_take, List.length_append] at hpart
      rw [List.drop_eq_nil_iff]
      omega

/-- A replay hands on a commit. -/
theorem replays_handing {later : List UInt32} {start : UInt64} {rest : List RawCommit}
    {whole : Bool} (hinner : inner.NeverFails)
    (hreplays : Replays config before old checkpoint stop
      (.handing number later start (commit :: rest) whole) follower)
    (read : Revision → Except LogError (List RawCommit)) :
    ∃ after, Replaying.advance inner.recorded read stop
        (.handing number later start (commit :: rest) whole) follower
          = .ok (.handing number later start rest whole, after) ∧
      Replays config before old checkpoint stop (.handing number later start rest whole) after := by
  obtain ⟨hfollows, htails, hfront, hnumber, hlater, hothers, hstart, missed, hmissed, hwhole⟩ :=
    hreplays
  obtain ⟨own, hhandle⟩ := recorded_handle hinner commit follower.state
  have hsplit : commitsIn commits number
      = (old number ++ commitsIn follower.state.2 number)
        ++ commit :: (rest ++ missed ++ commitsIn line number) := by
    rw [hcommits, Partition.commitsIn_append, ← hmissed]
    simp
  obtain ⟨hpartition, -, hactual, -⟩ := actual_le_iff h hcommits hnumber hsplit
  subst hpartition
  have hself : commitsIn (follower.state.2 ++ [commit]) commit.partition
      = commitsIn follower.state.2 commit.partition ++ [commit] := by
    rw [commitsIn_snoc, if_pos rfl]
  have hother : ∀ other, other ≠ commit.partition →
      commitsIn (follower.state.2 ++ [commit]) other = commitsIn follower.state.2 other := by
    intro other hne
    rw [commitsIn_snoc, if_neg hne, List.append_nil]
  have hmoved : old commit.partition ++ commitsIn (follower.state.2 ++ [commit]) commit.partition
      ++ rest = old commit.partition ++ commitsIn follower.state.2 commit.partition
        ++ commit :: rest := by
    rw [hself]
    simp
  refine ⟨follower.taken commit (own, follower.state.2 ++ [commit]), ?_,
    hfollows.taken hnumber hactual own, htails, ?_, hnumber, hlater, ?_, ?_, missed, ?_, hwhole⟩
  · simp only [Replaying.advance, hhandle]
  · intro other hlt
    show old other ++ commitsIn (follower.state.2 ++ [commit]) other <+: commitsIn before other
    by_cases hsame : other = commit.partition
    · rw [hsame, ← hmissed, ← hmoved, List.append_assoc _ rest]
      exact List.prefix_append _ _
    · rw [hother other hsame]
      exact hfront other hlt
  · intro other hlt hnot
    have hne : other ≠ commit.partition := fun hsame => hnot (by rw [hsame]; simp)
    show old other ++ commitsIn (follower.state.2 ++ [commit]) other = commitsIn before other
    rw [hother other hne]
    exact hothers other hlt hnot
  · show start.toNat < extent (old commit.partition
      ++ commitsIn (follower.state.2 ++ [commit]) commit.partition ++ rest)
    rw [hmoved]
    exact hstart
  · show old commit.partition ++ commitsIn (follower.state.2 ++ [commit]) commit.partition ++ rest
      ++ missed = _
    rw [hmoved]
    exact hmissed

omit h hcommits in
/-- A chunk has been handed on. -/
theorem replays_handed {later : List UInt32} {start : UInt64} {whole : Bool}
    (hinner : inner.NeverFails)
    (hreplays : Replays config before old checkpoint stop (.handing number later start [] whole)
      follower) (read : Revision → Except LogError (List RawCommit)) :
    ∃ moved after, Replaying.advance inner.recorded read stop (.handing number later start [] whole)
        follower = .ok (moved, after) ∧
      Replays config before old checkpoint stop moved after := by
  obtain ⟨hfollows, htails, hfront, hnumber, hlater, hothers, hstart, missed, hmissed, hwhole⟩ :=
    hreplays
  obtain ⟨after, hsave, hreached, hstate⟩ := recorded_saveNew hinner follower
  rw [List.append_nil] at hstart hmissed
  -- the chunk was not empty, so the replay never stops for want of progress
  have hadvanced : ¬(after.reached.get number).offset ≤ start := by
    rw [UInt64.le_iff_toNat_le, hreached, hfollows.reached number hnumber]
    omega
  simp only [Replaying.advance, hsave, hadvanced, or_false]
  cases whole with
  | false =>
    have hcaught : CaughtUp before follower.state.2 old number := by
      rw [hwhole rfl, List.append_nil] at hmissed
      exact hmissed
    refine ⟨_, _, rfl, hfollows.congr hreached hstate, htails, by rw [hstate]; exact hfront,
      hlater, ?_⟩
    intro other hlt hnot
    rw [hstate]
    by_cases hsame : other = number
    · rw [hsame]
      exact hcaught
    · exact hothers other hlt (by simp [hsame, hnot])
  | true =>
    refine ⟨_, _, rfl, hfollows.congr hreached hstate, htails, by rw [hstate]; exact hfront, ?_, ?_⟩
    · intro other hother
      rcases List.mem_cons.1 hother with rfl | hother
      · exact hnumber
      · exact hlater other hother
    · rw [hstate]
      exact hothers

/-- **Every step of a replay succeeds**, and leads on to the tails at the registration. -/
theorem replays_advance (hinner : inner.NeverFails)
    (hreplays : Replays config before old checkpoint stop todo follower) :
    ∃ moved after, todo.advance inner.recorded
        (fun start => topic.read disk start Replay.chunkSize) stop follower = .ok (moved, after) ∧
      Replays config before old checkpoint stop moved after := by
  cases todo with
  | between numbers =>
    cases numbers with
    | nil => exact ⟨_, _, rfl, hreplays⟩
    | cons number later =>
      obtain ⟨moved, hrun, hmoved⟩ := replays_between h hcommits hreplays inner.recorded
      exact ⟨moved, follower, hrun, hmoved⟩
  | handing number later start rest whole =>
    cases rest with
    | nil => exact replays_handed hinner hreplays _
    | cons commit rest =>
      obtain ⟨after, hrun, hafter⟩ := replays_handing h hcommits hinner hreplays _
      exact ⟨_, after, hrun, hafter⟩

end Advance

end CommitLog.Handover
