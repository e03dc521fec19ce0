import CommitLog.Proofs.Resuming.Sessions
import CommitLog.Proofs.Resuming.Whole
import Mathlib.Data.List.Basic

/-!
# At least once

Sessions follow one another over a log that grows, and each may come to its end anywhere: while it
replays or while it is live, because the subscriber fails or does not keep a checkpoint, because it
is cancelled or the topic is closed, or because everything stops. What was asked of the subscriber
in all of them is right event by event (`Told`), and that is what it comes to for the subscriber:
nothing that a checkpoint covers is lost, and nothing that it covers comes again.
-/

namespace CommitLog.Resuming

open CommitLog.Handover
open CommitLog.Topic (Folder IsHistory)

variable {σ : Type} {config : Config} {root : Path} {folder : Folder} {home : Disk.Place}
  {inner : Subscriber σ} {run : Run (σ × List Event)} {commits front later : List RawCommit}
  {commit other : RawCommit} {number : UInt32}

/-- A commit that starts before another in its partition stands before it. -/
theorem mem_front_of_lt (h : IsHistory config commits)
    (hlimit : extent (commitsIn commits number) ≤ Disk.maxFileLength)
    (hsplit : commitsIn commits number = front ++ commit :: later)
    (hother : other ∈ commitsIn commits number)
    (hlt : other.expected.offset < commit.expected.offset) : other ∈ front := by
  obtain ⟨before, behind, hplace⟩ := List.append_of_mem hother
  obtain ⟨hstart, -⟩ := place_of_split h hlimit hsplit
  obtain ⟨hfirst, -⟩ := place_of_split h hlimit hplace
  rw [UInt64.lt_iff_toNat_lt, hstart, hfirst] at hlt
  have hbefore : before <+: commitsIn commits number := ⟨other :: behind, hplace.symm⟩
  have hfront : front <+: commitsIn commits number := ⟨commit :: later, hsplit.symm⟩
  have hinside : before <+: front :=
    prefix_of_extent_le (entries_ne_of_mem h number) hbefore hfront (Nat.le_of_lt hlt)
  have hshort : before.length < front.length := by
    refine Nat.lt_of_le_of_ne hinside.length_le fun hsame => ?_
    rw [hinside.eq_of_length hsame] at hlt
    exact Nat.lt_irrefl _ hlt
  have hnext : before ++ [other] <+: front :=
    List.prefix_of_prefix_length_le ⟨behind, by rw [hplace]; simp⟩ hfront (by simp; omega)
  exact hnext.subset (by simp)

/-- **At least once, session after session.** Whatever has happened, a checkpoint that was kept
covers only commits that the subscriber has taken before, and is not behind the one that was kept
before it in any partition. A commit that is handed over, for the first time or again, is one of the
log that the checkpoint kept last does not cover, and all commits before it in its partition have
been taken, in this session or in one before. -/
theorem at_least_once (h : Reachable config root folder home inner run)
    {before later : List Event} {event : Event}
    (hevent : run.phase.state.2 = before ++ event :: later) :
    (∀ checkpoint, event = .saved checkpoint (.ok ()) →
      (∀ commit ∈ run.commits, checkpoint.covers commit.actual = true →
        .handed commit .taken ∈ before) ∧
      ∀ number, ((lastSaved before).get number).offset ≤ (checkpoint.get number).offset) ∧
    ∀ commit handled, event = .handed commit handled →
      commit ∈ run.commits ∧ (lastSaved before).covers commit.actual = false ∧
      ∀ other ∈ run.commits, other.partition = commit.partition →
        other.expected.offset < commit.expected.offset → .handed other .taken ∈ before := by
  have hconsistent := h.consistent
  have hagrees := hconsistent.orderly.agrees
  have hjustified := hconsistent.told before event later hevent
  constructor
  · rintro checkpoint rfl
    obtain ⟨hvouched, hforward⟩ := hjustified
    refine ⟨fun commit hcommit hcovers => ?_, hforward⟩
    exact hvouched.taken hagrees.history (extent_le hagrees (hagrees.history.lt commit hcommit))
      hcommit hcovers
  · rintro commit handled rfl
    obtain ⟨front, rest, hsplit, htaken, hle⟩ := hjustified
    have hmem : commit ∈ commitsIn run.commits commit.partition := by
      rw [hsplit]
      simp
    have hcommit : commit ∈ run.commits := (List.mem_filter.1 hmem).1
    have hlimit := extent_le hagrees (hagrees.history.lt commit hcommit)
    obtain ⟨-, -, hactual⟩ := place_of_split hagrees.history hlimit hsplit
    have hentries := List.length_pos_iff.2 (entries_ne_of_mem hagrees.history _ commit hmem)
    refine ⟨hcommit, ?_, fun other hother hsame hlt => ?_⟩
    · rw [Revisions.covers, decide_eq_false_iff_not, UInt64.le_iff_toNat_le, hactual]
      exact Nat.not_le.2 (Nat.lt_of_le_of_lt hle (by omega))
    · exact htaken other (mem_front_of_lt hagrees.history hlimit hsplit
        (List.mem_filter.2 ⟨hother, beq_iff_eq.2 hsame⟩) hlt)

/-- A subscriber that panics at the second commit, and is given both in a second session. -/
theorem at_least_once_of_panic :
    ∃ (inner : Subscriber (Nat × Revisions)) (run : Run ((Nat × Revisions) × List Event))
      (first second : RawCommit) (checkpoint : Revisions),
      Reachable {} ⟨["", ""]⟩ ⟨Path.child ⟨["", ""]⟩ "t", 1⟩ ⟨0, "t"⟩ inner run ∧
        run.phase.state.2
          = [.handed first .taken, .handed second .panicked, .handed first .taken,
            .handed second .taken, .saved checkpoint (.ok ())] ∧
        (lastSaved [.handed first .taken, .handed second .panicked]).covers first.actual = false ∧
        ∀ commit ∈ run.commits, checkpoint.covers commit.actual = true →
          .handed commit .taken ∈ [Event.handed first .taken, .handed second .panicked,
            .handed first .taken, .handed second .taken] := by
  let attempts : List RawAttempt :=
    [{ key := [107], entries := [[118]], expected := .origin 0 },
      { key := [107], entries := [[119]], expected := ⟨0, 1⟩ }]
  -- the subscriber counts how many commits it is still to take
  let inner : Subscriber (Nat × Revisions) :=
    ⟨fun state => (state.2, state),
      fun _ state => if state.1 = 0 then (.panicked, state) else (.taken, state.1 - 1, state.2),
      fun revisions state => (.ok (), state.1, revisions)⟩
  have hcomputed : (Topic.recover {} ⟨["", ""]⟩ "t" {}).2.entryAt? ⟨0, "t"⟩ = some (.directory 1) ∧
      (Topic.recover {} ⟨["", ""]⟩ "t" {}).1.toOption.map (fun topic =>
        let appended := Topic.appendAll attempts topic
          { disk := (Topic.recover {} ⟨["", ""]⟩ "t" {}).2 }
        let published := appended.2.1.publish (Topic.commitsOf appended.1)
        let panicked := published.2.replay appended.2.2.disk (traced inner) Replay.chunkSize .empty
          published.2.tails ((1, .empty), [])
        let replayed := published.2.replay appended.2.2.disk (traced inner) Replay.chunkSize .empty
          published.2.tails ((2, .empty), panicked.2.2)
        let commits := Topic.commitsOf appended.1
        (decide (commits.length = 2), published.1.isNone, panicked.1.toOption.isNone,
          decide (lastSaved panicked.2.2 = .empty),
          replayed.1.toOption.map fun reached => decide (replayed.2.2
            = commits.zipWith .handed [.taken, .panicked] ++
                commits.zipWith .handed [.taken, .taken] ++ [.saved reached (.ok ())])))
        = some (true, true, true, true, some true) := by decide +kernel
  have hfresh : Topic.Fresh ⟨["", ""]⟩ ⟨0, "t"⟩ {} :=
    ⟨by decide, rfl, rfl, rfl, Disk.entryAt?_new _, Disk.sound_new, by simp [Disk.Reliable]⟩
  rcases hrecover : Topic.recover {} ⟨["", ""]⟩ "t" {} with ⟨result, disk⟩
  rw [hrecover] at hcomputed
  obtain ⟨hentry, hcomputed⟩ := hcomputed
  cases result with
  | error failure => simp [Except.toOption] at hcomputed
  | ok opened =>
    rcases hall : Topic.appendAll attempts opened { disk } with ⟨results, appended, env⟩
    rcases hpublish : appended.publish (Topic.commitsOf results) with ⟨backlog, topic⟩
    rcases hpanic : topic.replay env.disk (traced inner) Replay.chunkSize .empty topic.tails
      ((1, .empty), []) with ⟨panicked, broken⟩
    rcases hreplay : topic.replay env.disk (traced inner) Replay.chunkSize .empty topic.tails
      ((2, .empty), broken.2) with ⟨replayed, state⟩
    simp only [Except.toOption, Option.map_some, hall, hpublish, hpanic, hreplay, Option.some.injEq,
      Prod.mk.injEq, decide_eq_true_eq] at hcomputed
    obtain ⟨htwo, hbacklog, hpanicked, hlast, hreplayed⟩ := hcomputed
    obtain ⟨first, second, hcommits⟩ := List.length_eq_two.1 htwo
    obtain rfl := Option.isNone_iff_eq_none.1 hbacklog
    obtain ⟨e, rfl⟩ : ∃ e, panicked = .error e := by
      cases panicked with
      | error e => exact ⟨e, rfl⟩
      | ok _ => simp at hpanicked
    obtain ⟨reached, rfl, hevents⟩ : ∃ reached, replayed = .ok reached ∧ state.2
        = [.handed first .taken, .handed second .panicked, .handed first .taken,
          .handed second .taken, .saved reached (.ok ())] := by
      cases replayed with
      | error e => simp at hreplayed
      | ok reached =>
        rw [hcommits] at hreplayed
        exact ⟨reached, rfl, of_decide_eq_true (Option.some.inj hreplayed)⟩
    let start : Run ((Nat × Revisions) × List Event) :=
      { topic := opened, env := { disk }, past := [], phase := .unregistered ((1, .empty), []) }
    have hbegins : Begins {} ⟨["", ""]⟩ ⟨Path.child ⟨["", ""]⟩ "t", 1⟩ ⟨0, "t"⟩
        ((1, .empty), []) start :=
      ⟨rfl, rfl, rfl, hentry, {}, .fresh hfresh, rfl, rfl, {}, disk, by decide, rfl, rfl, hrecover,
        rfl⟩
    have hdone : Leads {} ⟨["", ""]⟩ ⟨Path.child ⟨["", ""]⟩ "t", 1⟩ ⟨0, "t"⟩ inner start _ :=
      (leads_of_occurs (occurs_append attempts rfl hall hpublish).2).tail (.happens (.finished rfl))
    have hfirst : Leads {} ⟨["", ""]⟩ ⟨Path.child ⟨["", ""]⟩ "t", 1⟩ ⟨0, "t"⟩ inner start _ :=
      (hdone.tail (.moves (.registered rfl rfl))).trans (leads_replay rfl rfl hpanic)
    have hsecond : Leads {} ⟨["", ""]⟩ ⟨Path.child ⟨["", ""]⟩ "t", 1⟩ ⟨0, "t"⟩ inner start _ :=
      ((hfirst.tail (.moves (.began rfl (2, .empty)))).tail (.moves (.registered rfl rfl))).trans
        (leads_replay rfl hlast.symm hreplay)
    have hreach := (Reachable.begins hbegins).leads hsecond
    refine ⟨inner, _, first, second, reached, hreach, hevents, ?_, ?_⟩
    · exact ((at_least_once hreach (show _ = [_, _] ++ _ :: _ from hevents)).2 _ _ rfl).2.1
    · exact ((at_least_once hreach (show _ = [_, _, _, _] ++ _ :: _ from hevents)).1 _ rfl).1

end CommitLog.Resuming
