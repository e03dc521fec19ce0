import CommitLog.Proofs.Handover.Whole
import CommitLog.Proofs.Reporting.Replay

/-!
# What a delivery reports

A hot delivery ends at the first failure of its subscriber as well, and that failure is what it
ends with: when a commit has been refused and the checkpoint in front of it is not kept either, the
second failure is told to nobody (`reports_step`). This is so whatever comes into the queue between
two polls, and whenever the delivery is cancelled. A row of whole rounds is such a run
(`Course.leads`).
-/

namespace CommitLog.Reporting

open CommitLog.Delivery (Turn)
open CommitLog.Resuming (Event traced)

variable {σ : Type} {subscriber : Subscriber σ} {tail : HotTail} {reached : Revisions} {own : σ}
  {delivery next : Delivery (σ × List Event)} {follower after : Follower (σ × List Event)}
  {turn : Turn} {ending : Option Ending} {queue last : Queue RawCommit}

/-! ## Runs -/

/-- The smallest piece of a run. The queue holds whatever has come to it by then. -/
inductive Step (subscriber : Subscriber σ) (delivery : Delivery (σ × List Event)) :
    Delivery (σ × List Event) → Prop where
  /-- Somebody asks the delivery to stop. -/
  | asked : Step subscriber delivery delivery.cancel
  /-- A round begins. -/
  | woken (running : delivery.ending = none) (heard : Option Nat) :
      Step subscriber delivery { delivery with heard }
  | polled {queue last : Queue RawCommit} {follower : Follower (σ × List Event)}
      (running : delivery.ending = none)
      (poll : Delivery.poll (traced subscriber) delivery.consumer queue delivery.follower
        = (.more, last, follower)) :
      Step subscriber delivery { delivery with follower }
  /-- A round is over; the delivery may have ended with it. -/
  | concluded {queue last : Queue RawCommit} {turn : Turn} {ending : Option Ending}
      {moved follower : Follower (σ × List Event)} (running : delivery.ending = none)
      (poll : Delivery.poll (traced subscriber) delivery.consumer queue delivery.follower
        = (turn, last, moved))
      (isOver : turn ≠ .more)
      (conclude : Delivery.conclude (traced subscriber) turn moved = (ending, follower)) :
      Step subscriber delivery { delivery with follower, ending }
  /-- The delivery sees that it is to stop: it comes to its end as if the queue were closed. -/
  | cancelled {ending : Option Ending} {follower : Follower (σ × List Event)}
      (running : delivery.ending = none) (isCancelled : delivery.cancelled = true)
      (conclude : Delivery.conclude (traced subscriber) .closed delivery.follower
        = (ending, follower)) :
      Step subscriber delivery { delivery with follower, ending }

/-- One point of a run is followed by another. -/
abbrev Leads (subscriber : Subscriber σ) :
    Delivery (σ × List Event) → Delivery (σ × List Event) → Prop :=
  Relation.ReflTransGen (Step subscriber)

/-! ## What is reported -/

/-- How a turn ends a delivery, if it does. -/
def ending? : Turn → Option Ending
  | .ended ending => some ending
  | .more | .caughtUp | .closed => none

/-- A delivery that has stopped reports the first failure of its subscriber, if there is one. There
is none as long as it has not. -/
def Reports : Option Ending → List Event → Prop
  | some (.stopped error), events => (failures events).head? = error
  | some .panicked, events | none, events => failures events = []

theorem handOn_reports (subscriber : Subscriber σ) (commit : RawCommit)
    (h : failures follower.state.2 = []) :
    Reports (ending? (Delivery.handOn (traced subscriber) commit follower).1)
      (Delivery.handOn (traced subscriber) commit follower).2.state.2 := by
  unfold Delivery.handOn
  split
  next => exact h
  next =>
    rcases hhandle : subscriber.handle commit follower.state.1 with ⟨handled, state⟩
    rw [handle_traced hhandle]
    cases handled with
    | taken =>
      show failures (follower.state.2 ++ [.handed commit .taken]) = []
      rw [failures_append, h]
      rfl
    | refused error =>
      -- whether the checkpoint is kept or not comes behind the refusal
      show (failures (Follower.save _ (traced subscriber)).2.state.2).head? = some error
      rw [failures_save, failures_append, h]
      rfl
    | panicked =>
      show failures (follower.state.2 ++ [.handed commit .panicked]) = []
      rw [failures_append, h]
      rfl

theorem poll_reports (h : failures follower.state.2 = [])
    {consumer : Queue.ConsumerId}
    (hpoll : Delivery.poll (traced subscriber) consumer queue follower = (turn, last, after)) :
    Reports (ending? turn) after.state.2 := by
  unfold Delivery.poll at hpoll
  split at hpoll
  next =>
    obtain ⟨rfl, -, rfl⟩ := hpoll
    exact h
  next =>
    obtain ⟨rfl, -, rfl⟩ := hpoll
    exact h
  next commit moved hnext =>
    have hhanded := handOn_reports subscriber commit h
    obtain ⟨rfl, -, rfl⟩ := hpoll
    exact hhanded

/-- How a round ends: with a delivery that has ended before, or with the checkpoint being saved. -/
theorem conclude_cases
    (hconclude : Delivery.conclude (traced subscriber) turn follower = (ending, after)) :
    (∃ given, turn = .ended given ∧ ending = some given ∧ after = follower) ∨
      ending? turn = none ∧
        ((∃ error, follower.saveNew (traced subscriber) = (.error error, after) ∧
            ending = some (.stopped (some error))) ∨
          follower.saveNew (traced subscriber) = (.ok (), after) ∧
            ending = if turn = .closed then some (.stopped none) else none) := by
  cases turn with
  | ended given =>
    obtain ⟨rfl, rfl⟩ := Prod.mk.inj hconclude
    exact Or.inl ⟨given, rfl, rfl, rfl⟩
  | more | caughtUp | closed =>
    refine Or.inr ⟨rfl, ?_⟩
    simp only [Delivery.conclude] at hconclude
    split at hconclude
    next error moved hsave =>
      obtain ⟨rfl, rfl⟩ := Prod.mk.inj hconclude
      exact Or.inl ⟨error, hsave, rfl⟩
    next moved hsave =>
      obtain ⟨rfl, rfl⟩ := Prod.mk.inj hconclude
      exact Or.inr ⟨hsave, by simp⟩

theorem conclude_reports (h : Reports (ending? turn) follower.state.2)
    (hconclude : Delivery.conclude (traced subscriber) turn follower = (ending, after)) :
    Reports ending after.state.2 := by
  rcases conclude_cases hconclude with ⟨given, rfl, rfl, rfl⟩ | ⟨hturn, hsaves⟩
  · exact h
  · rw [hturn] at h
    have hsaved := failures_saveNew subscriber h
    rcases hsaves with ⟨error, hsave, rfl⟩ | ⟨hsave, rfl⟩
    · rw [hsave] at hsaved
      exact congrArg List.head? hsaved
    · rw [hsave] at hsaved
      split
      next => exact congrArg List.head? hsaved
      next => exact hsaved

/-- **A step keeps what is reported.** -/
theorem reports_step (h : Reports delivery.ending delivery.follower.state.2)
    (hstep : Step subscriber delivery next) : Reports next.ending next.follower.state.2 := by
  cases hstep with
  | asked => exact h
  | woken => exact h
  | polled running poll =>
    rw [running] at h ⊢
    exact poll_reports h poll
  | concluded running poll isOver conclude =>
    rw [running] at h
    exact conclude_reports (poll_reports h poll) conclude
  | cancelled running isCancelled conclude =>
    rw [running] at h
    have hclosed : Reports (ending? .closed) delivery.follower.state.2 := h
    exact conclude_reports hclosed conclude

/-- **A run keeps what is reported.** -/
theorem reports_of_leads (h : Reports delivery.ending delivery.follower.state.2)
    (hleads : Leads subscriber delivery next) : Reports next.ending next.follower.state.2 := by
  induction hleads with
  | refl => exact h
  | tail _ hstep ih => exact reports_step ih hstep

/-! ## Whole rounds -/

/-- A row of whole rounds, each with the topic as it is by then. -/
inductive Course (subscriber : Subscriber σ) (tail : HotTail) (reached : Revisions) (own : σ) :
    Delivery (σ × List Event) → Prop where
  | started : Course subscriber tail reached own (.start tail reached (own, []))
  | asked {delivery : Delivery (σ × List Event)}
      (course : Course subscriber tail reached own delivery) :
      Course subscriber tail reached own delivery.cancel
  | round {delivery : Delivery (σ × List Event)}
      (course : Course subscriber tail reached own delivery) (running : delivery.ending = none)
      (topic : Topic) :
      Course subscriber tail reached own (delivery.round (traced subscriber) topic).1

theorem leads_drain (delivery : Delivery (σ × List Event)) (hrunning : delivery.ending = none)
    (queue : Queue RawCommit) (follower : Follower (σ × List Event))
    {moved : Follower (σ × List Event)}
    (hdrain : Delivery.drain (traced subscriber) delivery.consumer queue follower
      = (turn, last, moved))
    (hconclude : Delivery.conclude (traced subscriber) turn moved = (ending, after)) :
    Leads subscriber { delivery with follower } { delivery with follower := after, ending } := by
  fun_induction Delivery.drain (traced subscriber) delivery.consumer queue follower with
  | case1 queue follower between later hpoll ih =>
    have hstep : Step subscriber { delivery with follower } { delivery with follower := later } :=
      .polled hrunning hpoll
    exact Relation.ReflTransGen.head hstep (ih hdrain)
  | case2 queue follower hover =>
    have hmore : turn ≠ .more := by
      rintro rfl
      exact hover last moved hdrain
    have hstep : Step subscriber { delivery with follower }
        { delivery with follower := after, ending } := .concluded hrunning hdrain hmore hconclude
    exact .single hstep

theorem unsaved_saveNew (hsave : follower.saveNew (traced subscriber) = (.ok (), after)) :
    after.unsaved = 0 := by
  unfold Follower.saveNew at hsave
  split at hsave
  next hnone =>
    obtain ⟨-, rfl⟩ := hsave
    exact hnone
  next =>
    obtain ⟨-, rfl⟩ := Prod.mk.inj hsave
    rfl

/-- A round is a row of steps. When the delivery goes on, nothing is left to be saved. -/
theorem leads_round (hrunning : delivery.ending = none) (hsaved : delivery.follower.unsaved = 0)
    (topic : Topic) :
    Leads subscriber delivery (delivery.round (traced subscriber) topic).1 ∧
      ((delivery.round (traced subscriber) topic).1.ending = none →
        (delivery.round (traced subscriber) topic).1.follower.unsaved = 0) := by
  have hwoken : Step subscriber delivery { delivery with heard := some topic.wakeups } :=
    .woken hrunning _
  cases hcancelled : delivery.cancelled with
  | true =>
    have hends : Delivery.conclude (traced subscriber) .closed delivery.follower
        = (some (.stopped none), delivery.follower) := by
      simp [Delivery.conclude, Follower.saveNew, hsaved]
    have hlast : Step subscriber { delivery with heard := some topic.wakeups } _ :=
      .cancelled hrunning hcancelled hends
    have hround : (delivery.round (traced subscriber) topic).1
        = { delivery with heard := some topic.wakeups, ending := some (.stopped none) } := by
      simp [Delivery.round, hcancelled, Delivery.conclude]
    rw [hround]
    exact ⟨(Relation.ReflTransGen.single hwoken).tail hlast, fun hnone => by cases hnone⟩
  | false =>
    rcases hdrain : Delivery.drain (traced subscriber) delivery.consumer topic.queue
      delivery.follower with ⟨turn, queue, moved⟩
    rcases hconclude : Delivery.conclude (traced subscriber) turn moved with ⟨ending, after⟩
    have hround : (delivery.round (traced subscriber) topic).1
        = { delivery with heard := some topic.wakeups, follower := after, ending } := by
      simp only [Delivery.round, hcancelled, Bool.false_eq_true, if_false, hdrain, hconclude]
    have hpolls : Leads subscriber { delivery with heard := some topic.wakeups } _ :=
      leads_drain { delivery with heard := some topic.wakeups } hrunning topic.queue
        delivery.follower hdrain hconclude
    rw [hround]
    refine ⟨Relation.ReflTransGen.head hwoken hpolls, fun hnone => ?_⟩
    rcases conclude_cases hconclude with ⟨given, -, hgiven, -⟩ | ⟨-, ⟨error, -, herror⟩ | ⟨hsave, -⟩⟩
    · cases hgiven.symm.trans hnone
    · cases herror.symm.trans hnone
    · exact unsaved_saveNew hsave

theorem Course.leads (h : Course subscriber tail reached own delivery) :
    Leads subscriber (.start tail reached (own, [])) delivery ∧
      (delivery.ending = none → delivery.follower.unsaved = 0) := by
  induction h with
  | started => exact ⟨.refl, fun _ => rfl⟩
  | asked course ih => exact ⟨ih.1.tail .asked, ih.2⟩
  | round course running topic ih =>
    obtain ⟨hleads, hsaved⟩ := leads_round running (ih.2 running) topic
    exact ⟨ih.1.trans hleads, hsaved⟩

/-! ## Replay and delivery -/

/-- **The first failure of a subscriber is what is reported, unless a replay was compounded.** A
delivery always ends with the first error that its subscriber returned, and with none if there was
none. So does a replay, unless the last that happened is that a commit was refused and the
checkpoint in front of it was not kept: it ends with the second error then. -/
theorem first_failure_is_reported_unless_compounded (subscriber : Subscriber σ) (own : σ) :
    (∀ (channel : Channel) (name : String) (start : Revisions) (stop : Option Revisions) (env : Env),
      let outcome := (channel.load name (traced subscriber) start stop (own, []) env).1
      (¬Compounded outcome.2.2 → ∀ error, (failures outcome.2.2).head? = some error →
        outcome.1 = .error error) ∧
      ∀ before commit refusal checkpoint failure,
        outcome.2.2
          = before ++ [.handed commit (.refused refusal), .saved checkpoint (.error failure)] →
        (failures outcome.2.2).head? = some refusal ∧ outcome.1 = .error failure) ∧
    ∀ (tail : HotTail) (reached : Revisions) (delivery : Delivery (σ × List Event)),
      (Course subscriber tail reached own delivery →
        Leads subscriber (.start tail reached (own, [])) delivery) ∧
      (Leads subscriber (.start tail reached (own, [])) delivery →
        (∀ error, delivery.ending = some (.stopped error) →
          (failures delivery.follower.state.2).head? = error) ∧
        (delivery.ending = none ∨ delivery.ending = some .panicked →
          failures delivery.follower.state.2 = [])) := by
  refine ⟨fun channel name start stop env =>
    (load_outcome channel name subscriber start stop own env).reported_unless_compounded,
    fun tail reached delivery => ⟨fun hcourse => hcourse.leads.1, fun hleads => ?_⟩⟩
  have hreports : Reports delivery.ending delivery.follower.state.2 := by
    refine reports_of_leads ?_ hleads
    exact rfl
  constructor
  · intro error hending
    rw [hending] at hreports
    exact hreports
  · rintro (hending | hending)
    all_goals
      rw [hending] at hreports
      exact hreports

/-- A channel over a log of one commit, with what is around it. -/
def logOfOne : Option (Channel × Env) :=
  let config : Config := { maxEntryBytes := 2, maxMapBytes := 2 }
  match Topic.recover config ⟨["", ""]⟩ "t" {} with
  | (.error _, _) => none
  | (.ok topic, disk) =>
    let attempt : RawAttempt := { key := [107], entries := [[118]], expected := .origin 0 }
    let submitted := ((Topic.Service.start topic 1024).submit (.append [attempt])).2
    let (service, env) := submitted.settle { disk }
    some ({ root := ⟨["", ""]⟩, config, services := [("t", service)] }, env)

/-- A subscriber that takes nothing, and answers every checkpoint with a result. -/
def refusing (result : Except LogError Unit) : Subscriber Unit where
  load state := (.empty, state)
  handle _ state := (.refused (.subscriber (.reported "refused")), state)
  save _ state := (result, state)

/-- A commit is refused. A replay says so when the checkpoint in front of it is kept, and a delivery
even when it is not. -/
theorem first_failure_is_reported_unless_compounded_of_one_commit :
    let refusal : LogError := .subscriber (.reported "refused")
    (∃ (channel : Channel) (env : Env), logOfOne = some (channel, env) ∧
      (channel.load "t" (traced (refusing (.ok ()))) .empty none ((), []) env).1.1
        = .error refusal) ∧
    ∃ delivery : Delivery (Unit × List Event),
      Leads (refusing (.error (.closed "t"))) (.start ⟨"t", 0, .empty⟩ .empty ((), [])) delivery ∧
        delivery.ending = some (.stopped (some refusal)) ∧
        (failures delivery.follower.state.2).head? = some refusal := by
  intro refusal
  constructor
  · have hcomputed : logOfOne.map (fun log =>
        let outcome := (log.1.load "t" (traced (refusing (.ok ()))) .empty none ((), []) log.2).1
        ((failures outcome.2.2).head?, outcome.2.2.getLast?.map failure?))
        = some (some refusal, some none) := by
      decide +kernel
    obtain ⟨⟨channel, env⟩, hlog, houtcome⟩ := Option.map_eq_some_iff.1 hcomputed
    obtain ⟨hfirst, hlast⟩ := Prod.mk.inj houtcome
    obtain ⟨hcold, -⟩ := first_failure_is_reported_unless_compounded (refusing (.ok ())) ()
    refine ⟨channel, env, hlog, (hcold channel "t" .empty none env).1 ?_ refusal hfirst⟩
    rintro ⟨before, commit, first, checkpoint, second, hevents⟩
    rw [hevents] at hlast
    simp [failure?] at hlast
  · let commit : RawCommit :=
      { id := default, key := [107], entries := [[118]], expected := .origin 0, actual := ⟨0, 1⟩,
        timestamp := default }
    let queue := (((Queue.ofFanout (.ring 1)).subscribe.2).publish [commit]).2
    have hpoll : Delivery.poll (traced (refusing (.error (.closed "t")))) 0 queue
        ⟨.empty, ((), []), 0⟩ = (.ended (.stopped (some refusal)), _, _) := rfl
    have hstep : Step (refusing (.error (.closed "t")))
        (.start ⟨"t", 0, .empty⟩ .empty ((), [])) _ := .concluded rfl hpoll (by decide) rfl
    have hleads := Relation.ReflTransGen.single hstep
    obtain ⟨-, hhot⟩ := first_failure_is_reported_unless_compounded
      (refusing (.error (.closed "t"))) ()
    exact ⟨_, hleads, rfl, ((hhot _ _ _).2 hleads).1 (some refusal) rfl⟩

/-- A commit is refused and the checkpoint in front of it is not kept: a replay reports the second
error. -/
theorem replay_reports_checkpoint_not_kept :
    ∃ (channel : Channel) (env : Env), logOfOne = some (channel, env) ∧
      let outcome := (channel.load "t" (traced (refusing (.error (.closed "t")))) .empty none
        ((), []) env).1
      (failures outcome.2.2).head? = some (.subscriber (.reported "refused")) ∧
        outcome.1 = .error (.closed "t") := by
  have hcomputed : logOfOne.map (fun log =>
      let outcome := (log.1.load "t" (traced (refusing (.error (.closed "t")))) .empty none
        ((), []) log.2).1
      ((failures outcome.2.2).head?, outcome.1))
      = some (some (.subscriber (.reported "refused")), .error (.closed "t")) := by
    decide +kernel
  obtain ⟨⟨channel, env⟩, hlog, houtcome⟩ := Option.map_eq_some_iff.1 hcomputed
  obtain ⟨hfirst, hreported⟩ := Prod.mk.inj houtcome
  exact ⟨channel, env, hlog, hfirst, hreported⟩

end CommitLog.Reporting
