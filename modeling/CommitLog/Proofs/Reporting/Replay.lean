import CommitLog.Channel
import CommitLog.Proofs.Resuming.Trace

/-!
# What a replay reports

A subscriber fails when it refuses a commit, and when it does not keep a checkpoint. A replay ends
at the first failure, but for one thing: when a commit has been refused, the checkpoint in front of
it is to be saved, and that may fail as well (`Compounded`). `Outcome` says how a replay ends and
what was asked of the subscriber until then. What is reported is the first failure unless it was
compounded, and then the second (`Outcome.reported_unless_compounded`).
-/

namespace CommitLog.Reporting

open CommitLog.Resuming (Event traced)

variable {σ : Type} {subscriber : Subscriber σ} {events before : List Event}
  {follower after : Follower (σ × List Event)} {commit : RawCommit} {checkpoint : Revisions}
  {error refusal failure : LogError} {result : Except LogError Unit}

/-! ## Failures -/

/-- The error that a subscriber has returned, if it has. -/
def failure? : Event → Option LogError
  | .handed _ (.refused error) => some error
  | .saved _ (.error error) => some error
  | .handed _ .taken | .handed _ .panicked | .saved _ (.ok ()) => none

/-- The errors that a subscriber has returned, the first one first. -/
def failures (events : List Event) : List LogError := events.filterMap failure?

@[simp] theorem failures_append (events later : List Event) :
    failures (events ++ later) = failures events ++ failures later := List.filterMap_append

/-- The last that happened is that a commit was refused and the checkpoint in front of it was not
kept. -/
def Compounded (events : List Event) : Prop :=
  ∃ before commit refusal checkpoint failure,
    events = before ++ [.handed commit (.refused refusal), .saved checkpoint (.error failure)]

/-- The error of a result, if it is one. -/
def reported {α : Type} : Except LogError α → List LogError
  | .ok _ => []
  | .error error => [error]

theorem failures_saved (checkpoint : Revisions) (result : Except LogError Unit) :
    failures [.saved checkpoint result] = reported result := by
  cases result <;> rfl

theorem failures_of_compounded (before : List Event) (commit : RawCommit)
    (checkpoint : Revisions) (refusal failure : LogError) :
    failures (before ++ [.handed commit (.refused refusal), .saved checkpoint (.error failure)])
      = failures before ++ [refusal, failure] := failures_append _ _

/-! ## Followers -/

theorem handle_traced {state : σ × List Event} {handled : Handled} {own : σ}
    (h : subscriber.handle commit state.1 = (handled, own)) :
    (traced subscriber).handle commit state = (handled, own, state.2 ++ [.handed commit handled]) := by
  simp only [traced, h]

theorem save_traced (subscriber : Subscriber σ) (follower : Follower (σ × List Event)) :
    (follower.save (traced subscriber)).2.state.2
      = follower.state.2 ++ [.saved follower.reached (follower.save (traced subscriber)).1] := rfl

theorem failures_save (subscriber : Subscriber σ) (follower : Follower (σ × List Event)) :
    failures (follower.save (traced subscriber)).2.state.2
      = failures follower.state.2 ++ reported (follower.save (traced subscriber)).1 := by
  rw [save_traced, failures_append, failures_saved]

/-- **Where a checkpoint was not kept, that is reported.** -/
theorem failures_saveNew (subscriber : Subscriber σ) (h : failures follower.state.2 = []) :
    failures (follower.saveNew (traced subscriber)).2.state.2
      = reported (follower.saveNew (traced subscriber)).1 := by
  unfold Follower.saveNew
  split
  next => exact h
  next => rw [failures_save, h, List.nil_append]

/-! ## Handing on -/

/-- What was asked of a subscriber when it was handed commits. -/
inductive Handed : Replay.Handing → List Event → Prop where
  | finished {events : List Event} (none : failures events = []) : Handed .finished events
  | refused {before : List Event} {commit : RawCommit} {error : LogError}
      (none : failures before = []) :
      Handed (.refused error) (before ++ [.handed commit (.refused error)])
  | panicked {events : List Event} (none : failures events = []) : Handed .panicked events

theorem handAll_handed (subscriber : Subscriber σ) (chunk : List RawCommit) :
    ∀ follower : Follower (σ × List Event), failures follower.state.2 = [] →
      Handed (Replay.handAll (traced subscriber) chunk follower).1
        (Replay.handAll (traced subscriber) chunk follower).2.state.2 := by
  induction chunk with
  | nil => exact fun follower h => .finished h
  | cons commit later ih =>
    intro follower h
    rcases hhandle : subscriber.handle commit follower.state.1 with ⟨handled, own⟩
    have htraced := handle_traced hhandle
    cases handled with
    | taken =>
      simp only [Replay.handAll, htraced]
      refine ih _ ?_
      show failures (follower.state.2 ++ [.handed commit .taken]) = []
      rw [failures_append, h]
      rfl
    | refused error =>
      simp only [Replay.handAll, htraced]
      exact .refused h
    | panicked =>
      simp only [Replay.handAll, htraced]
      refine .panicked ?_
      rw [failures_append, h]
      rfl

/-- How a replay ends, and what was asked of its subscriber until then. -/
inductive Outcome {α : Type} : Except LogError α → List Event → Prop where
  /-- The subscriber has not failed, or has failed once. -/
  | told {result : Except LogError α} {events : List Event}
      (told : failures events = reported result) : Outcome result events
  /-- Something else has come in the way: commits that cannot be read, or a panic. -/
  | hindered {error : LogError} {events : List Event} (none : failures events = []) :
      Outcome (.error error) events
  /-- The subscriber has failed twice, and it is the second failure that is told. -/
  | compounded {before : List Event} {commit : RawCommit} {refusal failure : LogError}
      {checkpoint : Revisions} (none : failures before = []) :
      Outcome (.error failure)
        (before ++ [.handed commit (.refused refusal), .saved checkpoint (.error failure)])

/-- **A chunk is handed on**: whoever refuses a commit has the checkpoint in front of it saved. -/
theorem handChunk_outcome (subscriber : Subscriber σ) (chunk : List RawCommit)
    (h : failures follower.state.2 = []) :
    Outcome (Replay.handChunk (traced subscriber) chunk follower).1
      (Replay.handChunk (traced subscriber) chunk follower).2.state.2 := by
  have hhanded := handAll_handed subscriber chunk follower h
  rcases hrun : Replay.handAll (traced subscriber) chunk follower with ⟨handing, after⟩
  rw [hrun] at hhanded
  simp only [Replay.handChunk, hrun]
  cases handing with
  | finished =>
    cases hhanded with
    | finished hnone => exact .told (failures_saveNew subscriber hnone)
  | panicked =>
    cases hhanded with
    | panicked hnone => exact .hindered hnone
  | refused error =>
    generalize hevents : after.state.2 = events at hhanded
    cases hhanded with
    | @refused before commit _ hnone =>
      rcases hsave : after.save (traced subscriber) with ⟨result, last⟩
      have hsaved := save_traced subscriber after
      rw [hsave, hevents, List.append_assoc] at hsaved
      simp only [hsave]
      rw [hsaved]
      cases result with
      | error failure => exact .compounded hnone
      | ok _ =>
        refine .told ?_
        rw [failures_append, hnone]
        rfl

/-! ## Replays -/

/-- What has gone well is followed by what comes next. -/
theorem Outcome.failures_eq_nil {α : Type} {value : α} {events : List Event}
    (h : Outcome (.ok value) events) : failures events = [] := by
  cases h with
  | told told => exact told

theorem Outcome.of_error {α β : Type} {error : LogError} {events : List Event}
    (h : Outcome (.error error : Except LogError α) events) :
    Outcome (.error error : Except LogError β) events := by
  cases h with
  | told told => exact .told told
  | hindered none => exact .hindered none
  | compounded none => exact .compounded none

/-- **A partition is replayed**, whatever is read of it. -/
theorem partition_outcome (subscriber : Subscriber σ)
    (read : Revision → Except LogError (List RawCommit)) (number : UInt32) (stop : UInt64)
    (follower : Follower (σ × List Event)) (h : failures follower.state.2 = []) :
    Outcome (Replay.partition (traced subscriber) read number stop follower).1
      (Replay.partition (traced subscriber) read number stop follower).2.state.2 := by
  fun_induction Replay.partition (traced subscriber) read number stop follower with
  | case1 => exact .told h
  | case2 => exact .hindered h
  | case3 follower hstop chunk hread within e after hchunk =>
    have hhanded := handChunk_outcome subscriber within h
    rw [hchunk] at hhanded
    exact hhanded
  | case4 follower hstop chunk hread within after hchunk hnext =>
    have hhanded := handChunk_outcome subscriber within h
    rw [hchunk] at hhanded
    exact hhanded
  | case5 follower hstop chunk hread within after hchunk hnext ih =>
    have hhanded := handChunk_outcome subscriber within h
    rw [hchunk] at hhanded
    exact ih hhanded.failures_eq_nil

theorem partitions_outcome (subscriber : Subscriber σ)
    (read : Revision → Except LogError (List RawCommit)) (stop : Revisions)
    (numbers : List UInt32) :
    ∀ follower : Follower (σ × List Event), failures follower.state.2 = [] →
      Outcome (Replay.partitions (traced subscriber) read stop numbers follower).1
        (Replay.partitions (traced subscriber) read stop numbers follower).2.state.2 := by
  induction numbers with
  | nil => exact fun follower h => .told h
  | cons number later ih =>
    intro follower h
    have hfirst := partition_outcome subscriber read number (stop.get number).offset follower h
    unfold Replay.partitions
    rcases hrun : Replay.partition (traced subscriber) read number (stop.get number).offset follower
      with ⟨result, after⟩
    rw [hrun] at hfirst
    cases result with
    | error e => exact hfirst
    | ok _ => exact ih after hfirst.failures_eq_nil

/-- **A topic is replayed to a subscriber.** -/
theorem load_outcome (channel : Channel) (name : String) (subscriber : Subscriber σ)
    (start : Revisions) (stop : Option Revisions) (own : σ) (env : Env) :
    Outcome (channel.load name (traced subscriber) start stop (own, []) env).1.1
      (channel.load name (traced subscriber) start stop (own, []) env).1.2.2 := by
  unfold Channel.load
  rcases channel.topic name env with ⟨result, channel, env⟩
  cases result with
  | error e => exact .hindered rfl
  | ok service =>
    have hreplayed := partitions_outcome subscriber
      (fun position => service.topic.read env.disk position Replay.chunkSize)
      (stop.getD service.topic.tails)
      ((List.range service.topic.partitions.length).map UInt32.ofNat) ⟨start, (own, []), 0⟩ rfl
    simp only [Topic.replay]
    rcases hrun : Replay.partitions (traced subscriber) _ _ _ _ with ⟨result, follower⟩
    rw [hrun] at hreplayed
    cases result with
    | error e => exact hreplayed.of_error
    | ok _ => exact .told hreplayed.failures_eq_nil

/-! ## What is reported -/

theorem Outcome.reported_unless_compounded {α : Type} {result : Except LogError α}
    {events : List Event} (h : Outcome result events) :
    (¬Compounded events → ∀ error, (failures events).head? = some error → result = .error error) ∧
    ∀ before commit refusal checkpoint failure,
      events = before ++ [.handed commit (.refused refusal), .saved checkpoint (.error failure)] →
      (failures events).head? = some refusal ∧ result = .error failure := by
  cases h with
  | told told =>
    refine ⟨fun _ error hfirst => ?_, fun before commit refusal checkpoint failure hevents => ?_⟩
    · rw [told] at hfirst
      cases result with
      | ok value => cases hfirst
      | error e => rw [Option.some.inj hfirst]
    · -- two failures are one too many
      have hlength := congrArg List.length told
      rw [hevents, failures_of_compounded] at hlength
      cases result <;> simp [reported] at hlength
  | hindered none =>
    refine ⟨fun _ error hfirst => ?_, fun before commit refusal checkpoint failure hevents => ?_⟩
    · rw [none] at hfirst
      cases hfirst
    · rw [hevents, failures_of_compounded] at none
      simp at none
  | @compounded before commit refusal failure checkpoint none =>
    refine ⟨fun hnot => absurd ⟨_, _, _, _, _, rfl⟩ hnot, ?_⟩
    intro before' commit' refusal' checkpoint' failure' hevents
    obtain ⟨rfl, hlast⟩ := List.append_inj' hevents rfl
    simp only [List.cons.injEq, Event.handed.injEq, Handled.refused.injEq, Event.saved.injEq,
      Except.error.injEq, and_true] at hlast
    obtain ⟨⟨-, rfl⟩, -, rfl⟩ := hlast
    rw [failures_of_compounded, none]
    exact ⟨rfl, rfl⟩

end CommitLog.Reporting
