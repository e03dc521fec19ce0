import CommitLog.Proofs.Handover.Positions
import CommitLog.Proofs.Resuming.Trace
import CommitLog.Proofs.Revisions

/-!
# The commits of a range, and how they are handed on

A range goes from a checkpoint up to a bound. The checkpoint lies between two commits; the bound may
lie anywhere, and a commit that reaches beyond it does not belong to the range. In a row of commits
each ends behind the one before it, so those of the range come first among what follows the
checkpoint (`dueIn_of_split`). Who has seen commits that follow one another stands behind the last
of them (`get_behind_of_split`).

A chunk of commits is handed to a subscriber one by one. When all are taken, the checkpoint behind
the last is kept; when one is refused, the checkpoint in front of it. `Stands` says what a follower
has come to by the commits that its subscriber has taken, `Settled` that the checkpoint there has
been kept as well. `Came` is what handing on some commits leads to, whatever they were cut into:
two rows that are handed on one after the other come to what their concatenation comes to
(`Came.append`).
-/

namespace CommitLog.ColdReplay

section Range

open CommitLog.Handover (commitsAfter commitsAfter_of_split extent extent_append extent_cons
  place_of_split)
open CommitLog.Topic (IsHistory partitionNumbers)

variable {config : Config} {commits front later seen : List RawCommit} {commit : RawCommit}
  {number : UInt32} {start stop : Revisions}

/-! ## Ranges -/

/-- Whether a commit ends at or before a bound. -/
def isWithin (bound : UInt64) (commit : RawCommit) : Bool :=
  decide (commit.actual.offset ≤ bound)

/-- The commits of a partition that start at or behind a checkpoint and end at or before a bound. -/
def dueIn (commits : List RawCommit) (start stop : Revisions) (number : UInt32) : List RawCommit :=
  (commitsAfter commits start number).filter (isWithin (stop.get number).offset)

/-- The commits of a range, partition by partition, each in the order in which they were made. -/
def due (config : Config) (commits : List RawCommit) (start stop : Revisions) : List RawCommit :=
  (partitionNumbers config).flatMap (dueIn commits start stop)

theorem partition_of_mem_dueIn (h : commit ∈ dueIn commits start stop number) :
    commit.partition = number :=
  eq_of_beq (List.mem_filter.1 (List.mem_filter.1 (List.mem_filter.1 h).1).1).2

section Rows

variable (h : IsHistory config commits)
  (hlimit : extent (commitsIn commits number) ≤ Disk.maxFileLength)

include h hlimit

/-- When a commit of a row reaches beyond a bound, so do all that come after it. -/
theorem filter_isWithin (bound : UInt64) :
    ∀ (front later : List RawCommit), commitsIn commits number = front ++ later →
      later.filter (isWithin bound) = later.takeWhile (isWithin bound) := by
  intro front later
  induction later generalizing front with
  | nil => intro _; rfl
  | cons commit later ih =>
    intro hsplit
    have hnext : commitsIn commits number = (front ++ [commit]) ++ later := by
      rw [hsplit, List.append_assoc, List.singleton_append]
    by_cases hin : isWithin bound commit = true
    · rw [List.filter_cons_of_pos hin, List.takeWhile_cons_of_pos hin, ih _ hnext]
    · rw [List.filter_cons_of_neg hin, List.takeWhile_cons_of_neg hin, List.filter_eq_nil_iff]
      intro other hother
      obtain ⟨before, behind, rfl⟩ := List.append_of_mem hother
      obtain ⟨-, -, hactual⟩ := place_of_split h hlimit hsplit
      rw [← List.append_assoc] at hnext
      obtain ⟨-, -, hbehind⟩ := place_of_split h hlimit hnext
      rw [extent_append, extent_append, extent_cons] at hbehind
      rw [isWithin, decide_eq_true_eq, UInt64.le_iff_toNat_le] at hin ⊢
      omega

/-- The commits of a range come first among those that follow its checkpoint. -/
theorem dueIn_of_split (hsplit : commitsIn commits number = front ++ later)
    (hstart : extent front = (start.get number).offset.toNat) (stop : Revisions) :
    dueIn commits start stop number = later.takeWhile (isWithin (stop.get number).offset) := by
  rw [dueIn, commitsAfter_of_split h hlimit hsplit hstart]
  exact filter_isWithin h hlimit _ front later hsplit

/-- What lies behind a bound that was reached is not in the range. -/
theorem takeWhile_of_reached (hsplit : commitsIn commits number = front ++ later)
    {bound : UInt64} (hreached : bound.toNat ≤ extent front) :
    later.takeWhile (isWithin bound) = [] := by
  cases later with
  | nil => rfl
  | cons commit later =>
    obtain ⟨-, -, hactual⟩ := place_of_split h hlimit hsplit
    have hentries := List.length_pos_iff.2 (Handover.entries_ne_of_mem h number commit (by
      rw [hsplit]
      simp))
    rw [List.takeWhile_cons_of_neg]
    rw [isWithin, decide_eq_true_eq, UInt64.le_iff_toNat_le]
    omega

end Rows

/-! ## Checkpoints -/

/-- Where somebody stands who began at a checkpoint and has seen some commits. -/
def behind (start : Revisions) (seen : List RawCommit) : Revisions :=
  seen.foldl (fun reached commit => reached.advance commit.actual) start

theorem behind_append (start : Revisions) (seen later : List RawCommit) :
    behind start (seen ++ later) = behind (behind start seen) later := List.foldl_append

@[simp] theorem behind_snoc (start : Revisions) (seen : List RawCommit) (commit : RawCommit) :
    behind start (seen ++ [commit]) = (behind start seen).advance commit.actual :=
  behind_append start seen [commit]

/-- Commits of other partitions are nothing to a partition. -/
theorem get_behind_of_ne (hseen : ∀ commit ∈ seen, commit.partition ≠ number) (start : Revisions) :
    (behind start seen).get number = start.get number := by
  induction seen generalizing start with
  | nil => rfl
  | cons commit later ih =>
    have hcommit : number ≠ commit.actual.partition := Ne.symm (hseen commit List.mem_cons_self)
    show (behind (start.advance commit.actual) later).get number = start.get number
    rw [ih fun other hother => hseen other (List.mem_cons_of_mem _ hother), Revisions.get_advance,
      if_neg hcommit]

/-- Who has seen the next commits of a partition stands behind them. -/
theorem get_behind_of_split (h : IsHistory config commits)
    (hlimit : extent (commitsIn commits number) ≤ Disk.maxFileLength) :
    ∀ (seen front : List RawCommit) (start : Revisions),
      commitsIn commits number = front ++ (seen ++ later) →
      (start.get number).offset.toNat = extent front →
      ((behind start seen).get number).offset.toNat = extent (front ++ seen) := by
  intro seen
  induction seen with
  | nil =>
    intro front start _ hstart
    rw [List.append_nil]
    exact hstart
  | cons commit seen ih =>
    intro front start hsplit hstart
    obtain ⟨-, hpartition, hactual⟩ := place_of_split h hlimit hsplit
    have hle : (start.get commit.actual.partition).offset ≤ commit.actual.offset := by
      rw [UInt64.le_iff_toNat_le, hpartition, hstart, hactual]
      exact Nat.le_add_right _ _
    have hnext : ((start.advance commit.actual).get number).offset.toNat
        = extent (front ++ [commit]) := by
      rw [Revisions.get_advance_of_le hle, if_pos hpartition.symm, hactual, extent_append,
        extent_cons]
      rfl
    have hbehind := ih (front ++ [commit]) (start.advance commit.actual) (by
      rw [hsplit]
      simp) hnext
    rw [List.append_assoc, List.singleton_append] at hbehind
    exact hbehind

end Range

open CommitLog.Resuming (Event traced)

variable {σ : Type} {subscriber : Subscriber σ} {start : Revisions}
  {done due later : List RawCommit} {events : List Event}
  {follower after : Follower (σ × List Event)} {error : LogError}

/-! ## What a subscriber was asked -/

/-- A subscriber that keeps every checkpoint, and takes a commit or refuses it. -/
structure Answers (subscriber : Subscriber σ) : Prop where
  handle : ∀ commit state, (subscriber.handle commit state).1 ≠ .panicked
  save : ∀ revisions state, (subscriber.save revisions state).1 = .ok ()

theorem answers_of_neverFails (h : subscriber.NeverFails) : Answers subscriber where
  handle commit state := by
    rw [h.handle]
    exact Handled.noConfusion
  save := h.save

/-- The commits that were handed to a subscriber, and what came of each. -/
def handings (events : List Event) : List (RawCommit × Handled) :=
  events.filterMap fun
    | .handed commit handled => some (commit, handled)
    | .saved _ _ => none

/-- The commits that a subscriber has taken. -/
def taken (events : List Event) : List RawCommit :=
  ((handings events).filter fun handing => handing.2 = .taken).map Prod.fst

@[simp] theorem handings_handed (events : List Event) (commit : RawCommit) (handled : Handled) :
    handings (events ++ [.handed commit handled]) = handings events ++ [(commit, handled)] := by
  simp [handings]

@[simp] theorem handings_saved (events : List Event) (checkpoint : Revisions)
    (result : Except LogError Unit) :
    handings (events ++ [.saved checkpoint result]) = handings events := by
  simp [handings]

/-- Commits as they are handed to somebody who takes them. -/
def asTaken (commits : List RawCommit) : List (RawCommit × Handled) :=
  commits.map fun commit => (commit, .taken)

theorem taken_of_handings (h : handings events = asTaken done) : taken events = done := by
  rw [taken, h, asTaken, List.filter_eq_self.2 (by simp), List.map_map]
  exact List.map_id _

/-- Every checkpoint that a subscriber was asked to keep is the one it began at, advanced by the
commits that it had taken until then. -/
def Accounts (start : Revisions) (events : List Event) : Prop :=
  ∀ before checkpoint result later, events = before ++ .saved checkpoint result :: later →
    checkpoint = behind start (taken before)

theorem accounts_nil (start : Revisions) : Accounts start [] := by
  intro before checkpoint result later hsplit
  simp at hsplit

/-- What comes last leaves what was before as it was. -/
theorem Accounts.snoc {event : Event} (h : Accounts start events)
    (hevent : ∀ checkpoint result, event = .saved checkpoint result →
      checkpoint = behind start (taken events)) : Accounts start (events ++ [event]) := by
  intro before checkpoint result later hsplit
  rcases List.eq_nil_or_concat later with rfl | ⟨rest, last, rfl⟩
  · obtain ⟨rfl, hlast⟩ := List.append_inj' hsplit rfl
    exact hevent checkpoint result (List.cons.inj hlast).1
  · rw [List.concat_eq_append, ← List.cons_append, ← List.append_assoc] at hsplit
    exact h before checkpoint result rest (List.append_inj' hsplit rfl).1

theorem Accounts.handed (h : Accounts start events) (commit : RawCommit) (handled : Handled) :
    Accounts start (events ++ [.handed commit handled]) :=
  h.snoc (by simp)

/-! ## Where a follower stands -/

/-- A follower that began at a checkpoint and whose subscriber has taken some commits. -/
structure Stands (start : Revisions) (done : List RawCommit)
    (follower : Follower (σ × List Event)) : Prop where
  reached : follower.reached = behind start done
  handings : handings follower.state.2 = asTaken done
  accounts : Accounts start follower.state.2

/-- The checkpoint that a follower has come to has been kept. -/
structure Settled (start : Revisions) (done : List RawCommit)
    (follower : Follower (σ × List Event)) : Prop extends Stands start done follower where
  unsaved : follower.unsaved = 0
  last : done ≠ [] → follower.state.2.getLast? = some (.saved (behind start done) (.ok ()))

/-- A subscriber has refused a commit, and has kept the checkpoint in front of it. -/
structure Refused (start : Revisions) (done : List RawCommit) (commit : RawCommit)
    (error : LogError) (events : List Event) : Prop where
  handings : handings events = asTaken done ++ [(commit, .refused error)]
  accounts : Accounts start events
  last : events.getLast? = some (.saved (behind start done) (.ok ()))

theorem settled_start (start : Revisions) (own : σ) : Settled start [] ⟨start, (own, []), 0⟩ where
  reached := rfl
  handings := rfl
  accounts := accounts_nil start
  unsaved := rfl
  last h := absurd rfl h

theorem Stands.taken (h : Stands start done follower) (own : σ) (commit : RawCommit) :
    Stands start (done ++ [commit])
      (follower.taken commit (own, follower.state.2 ++ [.handed commit .taken])) where
  reached := by
    show follower.reached.advance commit.actual = _
    rw [h.reached, behind_snoc]
  handings := by
    show ColdReplay.handings (follower.state.2 ++ [.handed commit .taken]) = _
    rw [handings_handed, h.handings]
    simp [asTaken]
  accounts := h.accounts.handed commit .taken

/-- A checkpoint is kept. -/
theorem exists_save (hanswers : Answers subscriber) (follower : Follower (σ × List Event)) :
    ∃ own, follower.save (traced subscriber)
      = (.ok (), ⟨follower.reached,
          (own, follower.state.2 ++ [.saved follower.reached (.ok ())]), 0⟩) := by
  rcases hsave : subscriber.save follower.reached follower.state.1 with ⟨result, own⟩
  obtain rfl : result = .ok () := by
    rw [← hanswers.save follower.reached follower.state.1, hsave]
  exact ⟨own, by simp only [Follower.save, traced, hsave]⟩

theorem Stands.saved (h : Stands start done follower) (own : σ) :
    Settled start done ⟨follower.reached,
      (own, follower.state.2 ++ [.saved follower.reached (.ok ())]), 0⟩ where
  reached := h.reached
  handings := by rw [handings_saved, h.handings]
  accounts := h.accounts.snoc fun checkpoint result hevent => by
    obtain ⟨rfl, -⟩ := Event.saved.inj hevent
    rw [h.reached, taken_of_handings h.handings]
  unsaved := rfl
  last _ := by rw [List.getLast?_concat, h.reached]

/-- A commit is refused, and the checkpoint in front of it is kept. -/
theorem Stands.refused (h : Stands start done follower) (commit : RawCommit) (error : LogError) :
    Refused start done commit error (follower.state.2 ++ [.handed commit (.refused error)]
      ++ [.saved follower.reached (.ok ())]) where
  handings := by rw [handings_saved, handings_handed, h.handings]
  accounts := (h.accounts.handed commit (.refused error)).snoc fun checkpoint result hevent => by
    obtain ⟨rfl, -⟩ := Event.saved.inj hevent
    rw [h.reached, ColdReplay.taken, handings_handed, List.filter_append, List.map_append,
      ← ColdReplay.taken, taken_of_handings h.handings]
    simp
  last := by rw [List.getLast?_concat, h.reached]

/-! ## Handing on -/

/-- What handing on some commits comes to, after others that were taken before. -/
inductive Came (subscriber : Subscriber σ) (start : Revisions) (done due : List RawCommit) :
    Except LogError Unit × Follower (σ × List Event) → Prop where
  | through {after : Follower (σ × List Event)} (settled : Settled start (done ++ due) after) :
      Came subscriber start done due (.ok (), after)
  | refused {front later : List RawCommit} {commit : RawCommit} {error : LogError}
      {after : Follower (σ × List Event)} (split : due = front ++ commit :: later)
      (answer : ∃ own, (subscriber.handle commit own).1 = .refused error)
      (refused : Refused start (done ++ front) commit error after.state.2) :
      Came subscriber start done due (.error error, after)

/-- What came in front of other commits decides, unless all of it was taken. -/
theorem Came.append_of_error (h : Came subscriber start done due (.error error, after))
    (later : List RawCommit) : Came subscriber start done (due ++ later) (.error error, after) := by
  cases h with
  | @refused front rest commit error after split answer refused =>
    have hsplit : due ++ later = front ++ commit :: (rest ++ later) := by
      rw [split, List.append_assoc, List.cons_append]
    exact .refused hsplit answer refused

theorem Came.append {out : Except LogError Unit × Follower (σ × List Event)}
    (h : Came subscriber start (done ++ due) later out) :
    Came subscriber start done (due ++ later) out := by
  cases h with
  | through settled =>
    refine .through ?_
    rw [← List.append_assoc]
    exact settled
  | @refused front rest commit error after split answer refused =>
    have hsplit : due ++ later = (due ++ front) ++ commit :: rest := by
      rw [split, List.append_assoc]
    rw [List.append_assoc] at refused
    exact .refused hsplit answer refused

theorem Came.settled (h : Came subscriber start done due (.ok (), after)) :
    Settled start (done ++ due) after := by
  cases h with
  | through settled => exact settled

/-- What handing on a chunk comes to, before a checkpoint is kept. -/
inductive Handed (subscriber : Subscriber σ) (start : Revisions) (done chunk : List RawCommit)
    (unsaved : Nat) : Replay.Handing × Follower (σ × List Event) → Prop where
  | finished {after : Follower (σ × List Event)} (stands : Stands start (done ++ chunk) after)
      (unsaved_eq : after.unsaved = unsaved + chunk.length) :
      Handed subscriber start done chunk unsaved (.finished, after)
  | refused {front later : List RawCommit} {commit : RawCommit} {error : LogError}
      {before : Follower (σ × List Event)} {own : σ} (split : chunk = front ++ commit :: later)
      (answer : ∃ own, (subscriber.handle commit own).1 = .refused error)
      (stands : Stands start (done ++ front) before) :
      Handed subscriber start done chunk unsaved
        (.refused error,
          { before with state := (own, before.state.2 ++ [.handed commit (.refused error)]) })

/-- Commits are handed on one by one: all are taken, or there is a first one that is refused. -/
theorem handAll_handed (hanswers : Answers subscriber) :
    ∀ (chunk done : List RawCommit) (follower : Follower (σ × List Event)),
      Stands start done follower →
      Handed subscriber start done chunk follower.unsaved
        (Replay.handAll (traced subscriber) chunk follower) := by
  intro chunk
  induction chunk with
  | nil =>
    intro done follower hstands
    refine .finished ?_ rfl
    rw [List.append_nil]
    exact hstands
  | cons commit chunk ih =>
    intro done follower hstands
    have hcalm := hanswers.handle commit follower.state.1
    rcases hhandle : subscriber.handle commit follower.state.1 with ⟨handled, own⟩
    have htraced : (traced subscriber).handle commit follower.state
        = (handled, own, follower.state.2 ++ [.handed commit handled]) := by
      simp only [traced, hhandle]
    rw [hhandle] at hcalm
    cases handled with
    | panicked => exact absurd rfl hcalm
    | refused error =>
      simp only [Replay.handAll, htraced]
      refine .refused (List.nil_append _).symm ⟨_, congrArg Prod.fst hhandle⟩ ?_
      rw [List.append_nil]
      exact hstands
    | taken =>
      simp only [Replay.handAll, htraced]
      have hlater := ih (done ++ [commit]) _ (hstands.taken own commit)
      generalize Replay.handAll (traced subscriber) chunk _ = out at hlater
      cases hlater with
      | finished stands unsaved_eq =>
        rw [List.append_assoc, List.singleton_append] at stands
        refine .finished stands (unsaved_eq.trans ?_)
        show follower.unsaved + 1 + chunk.length = _
        rw [List.length_cons, Nat.add_assoc, Nat.add_comm 1]
      | refused split answer stands =>
        rw [List.append_assoc, List.singleton_append] at stands
        exact .refused (by rw [split, List.cons_append]) answer stands

/-- **A chunk is handed on**, and the checkpoint behind what was taken of it is kept. -/
theorem handChunk_came (hanswers : Answers subscriber) (hsettled : Settled start done follower)
    (chunk : List RawCommit) :
    Came subscriber start done chunk (Replay.handChunk (traced subscriber) chunk follower) := by
  have hhanded := handAll_handed hanswers chunk done follower hsettled.toStands
  rcases hrun : Replay.handAll (traced subscriber) chunk follower with ⟨handing, after⟩
  rw [hrun] at hhanded
  cases hhanded with
  | finished stands unsaved_eq =>
    rw [hsettled.unsaved, Nat.zero_add] at unsaved_eq
    simp only [Replay.handChunk, hrun, Follower.saveNew]
    by_cases hnone : after.unsaved = 0
    · -- nothing was handed on, and nothing is to be kept
      obtain rfl : chunk = [] := List.length_eq_zero_iff.1 (unsaved_eq.symm.trans hnone)
      obtain ⟨-, rfl⟩ := Prod.mk.inj hrun
      rw [if_pos hnone]
      refine .through ?_
      rw [List.append_nil]
      exact hsettled
    · obtain ⟨own, hsave⟩ := exists_save hanswers after
      rw [if_neg hnone, hsave]
      exact .through (stands.saved own)
  | @refused front later commit error before own split answer stands =>
    obtain ⟨kept, hsave⟩ := exists_save hanswers
      { before with state := (own, before.state.2 ++ [.handed commit (.refused error)]) }
    simp only [Replay.handChunk, hrun, hsave]
    exact .refused split answer (stands.refused commit error)

end CommitLog.ColdReplay
