import CommitLog.Proofs.Resuming.Run

/-!
# Whole replays and rounds

What a replay and a round of a delivery do in one go is a row of steps, whether they come to a good
end or not: a subscriber that fails, a checkpoint that is not kept and a delivery that is cancelled
are steps of their own. So whatever holds at every point of every run holds where a replay or a
round has ended.
-/

namespace CommitLog.Resuming

open CommitLog.Handover (Phase Replaying Run)
open CommitLog.Topic (Folder)

variable {σ : Type} {config : Config} {root : Path} {folder : Folder} {home : Disk.Place}
  {inner : Subscriber σ} {run : Run (σ × List Event)} {tail : HotTail}
  {checkpoint : Revisions} {follower after : Follower (σ × List Event)} {number : UInt32}
  {later : List UInt32} {result : Except LogError Unit} {todo : Replaying}

/-! ## Replays -/

/-- Where a replay is that has come to a result: it goes on with something, or has ended. -/
def settle (tail : HotTail) (checkpoint : Revisions) (todo : Replaying)
    (follower : Follower (σ × List Event)) : Except LogError Unit → Phase (σ × List Event)
  | .ok () => .replaying tail checkpoint todo follower
  | .error _ => .ended follower.state

/-- A replay can be given up wherever it is. -/
theorem leads_left (run : Run (σ × List Event)) (todo : Replaying)
    (follower : Follower (σ × List Event)) :
    Leads config root folder home inner
      { run with phase := .replaying tail checkpoint todo follower }
      { run with phase := .ended follower.state } := .single (.moves .left)

/-- A chunk that was read is handed on, up to its end or to where the subscriber fails. -/
theorem leads_handChunk (run : Run (σ × List Event)) {start : UInt64} {whole : Bool}
    (chunk : List RawCommit) : ∀ (follower : Follower (σ × List Event))
      {after : Follower (σ × List Event)} {result : Except LogError Unit},
      Replay.handChunk (traced inner) chunk follower = (result, after) →
      Leads config root folder home inner
        { run with
          phase := .replaying tail checkpoint (.handing number later start chunk whole) follower }
        { run with
          phase := settle tail checkpoint
            (if whole = false ∨ (after.reached.get number).offset ≤ start then .between later
              else .between (number :: later)) after result } := by
  induction chunk with
  | nil =>
    intro follower after result hrun
    have hsave : follower.saveNew (traced inner) = (result, after) := hrun
    let here : Run (σ × List Event) :=
      { run with phase := .replaying tail checkpoint (.handing number later start [] whole) follower }
    cases result with
    | error e =>
      have hstep : Step config root folder home inner here _ := .moves (.replaySaved rfl)
      rw [hsave] at hstep
      exact .single hstep
    | ok _ =>
      have hadvance : Replaying.advance (traced inner) run.read tail.revisions
          (.handing number later start [] whole) follower
            = .ok (if whole = false ∨ (after.reached.get number).offset ≤ start then .between later
              else .between (number :: later), after) := by
        simp only [Replaying.advance, hsave]
        split <;> rfl
      have hstep : Step config root folder home inner here _ := .moves (.replayed rfl hadvance)
      exact .single hstep
  | cons commit rest ih =>
    intro follower after result hrun
    let here : Run (σ × List Event) :=
      { run with
        phase := .replaying tail checkpoint (.handing number later start (commit :: rest) whole)
          follower }
    unfold Replay.handChunk Replay.handAll at hrun
    rcases hhandle : (traced inner).handle commit follower.state with ⟨handled, state⟩
    rw [hhandle] at hrun
    cases handled with
    | taken =>
      have hadvance : Replaying.advance (traced inner) run.read tail.revisions
          (.handing number later start (commit :: rest) whole) follower
            = .ok (.handing number later start rest whole, follower.taken commit state) := by
        simp only [Replaying.advance, hhandle]
      have hstep : Step config root folder home inner here _ := .moves (.replayed rfl hadvance)
      exact Relation.ReflTransGen.head hstep (ih (follower.taken commit state) hrun)
    | refused error =>
      obtain ⟨hresult, rfl⟩ := Prod.mk.inj hrun
      have hstep : Step config root folder home inner here _ :=
        .moves (.replayRefused rfl (congrArg Prod.fst hhandle))
      rw [hhandle] at hstep
      -- whether the checkpoint was kept or not, the replay has failed
      have hfails : ∀ saved : Except LogError Unit,
          ∃ e, (saved >>= fun () => (.error error : Except LogError Unit)) = .error e := by
        intro saved
        cases saved with
        | error e => exact ⟨e, rfl⟩
        | ok _ => exact ⟨error, rfl⟩
      obtain ⟨e, hfailed⟩ := hfails ({ follower with state }.save (traced inner)).1
      obtain rfl : result = .error e := hresult.symm.trans hfailed
      exact .single hstep
    | panicked =>
      obtain ⟨rfl, rfl⟩ := Prod.mk.inj hrun
      have hstep : Step config root folder home inner here _ := .moves (.replayBroken rfl)
      rw [hhandle] at hstep
      exact .single hstep

/-- A chunk is read and handed on. -/
theorem leads_chunk (run : Run (σ × List Event)) {chunk : List RawCommit}
    (hstop : ¬(tail.revisions.get number).offset ≤ (follower.reached.get number).offset)
    (hread : run.read (follower.reached.get number) = .ok chunk) {within : List RawCommit}
    (hwithin : within = chunk.takeWhile fun commit =>
      decide (commit.actual.offset ≤ (tail.revisions.get number).offset))
    (hchunk : Replay.handChunk (traced inner) within follower = (result, after)) :
    Leads config root folder home inner
      { run with phase := .replaying tail checkpoint (.between (number :: later)) follower }
      { run with
        phase := settle tail checkpoint
          (if within.length < chunk.length ∨
              (after.reached.get number).offset ≤ (follower.reached.get number).offset then
            .between later else .between (number :: later)) after result } := by
  have hadvance : Replaying.advance (traced inner) run.read tail.revisions
      (.between (number :: later)) follower
        = .ok (.handing number later (follower.reached.get number).offset within
          (decide (chunk.length ≤ within.length)), follower) := by
    simp only [Replaying.advance, if_neg hstop, hread, hwithin]
  let here : Run (σ × List Event) :=
    { run with phase := .replaying tail checkpoint (.between (number :: later)) follower }
  have hstep : Step config root folder home inner here _ := .moves (.replayed rfl hadvance)
  have hlast : Leads config root folder home inner
      { run with
        phase := .replaying tail checkpoint
          (.handing number later (follower.reached.get number).offset within
            (decide (chunk.length ≤ within.length))) follower } _ :=
    leads_handChunk run within follower hchunk
  simp only [decide_eq_false_iff_not, Nat.not_le] at hlast
  exact Relation.ReflTransGen.head hstep hlast

/-- A partition is replayed. -/
theorem leads_partition (run : Run (σ × List Event)) (number : UInt32)
    (follower : Follower (σ × List Event))
    (hrun : Replay.partition (traced inner) run.read number (tail.revisions.get number).offset
      follower = (result, after)) :
    Leads config root folder home inner
      { run with phase := .replaying tail checkpoint (.between (number :: later)) follower }
      { run with phase := settle tail checkpoint (.between later) after result } := by
  fun_induction Replay.partition (traced inner) run.read number (tail.revisions.get number).offset
    follower with
  | case1 follower hstop =>
    obtain ⟨rfl, rfl⟩ := Prod.mk.inj hrun
    refine .single (.moves (.replayed rfl ?_))
    simp only [Replaying.advance, if_pos hstop]
  | case2 follower hstop e hread =>
    obtain ⟨rfl, rfl⟩ := Prod.mk.inj hrun
    exact leads_left run _ follower
  | case3 follower hstop chunk hread within e moved hchunk =>
    obtain ⟨rfl, rfl⟩ := Prod.mk.inj hrun
    exact leads_chunk run hstop hread rfl hchunk
  | case4 follower hstop chunk hread within moved hchunk hnext =>
    obtain ⟨rfl, rfl⟩ := Prod.mk.inj hrun
    have hlast : Leads config root folder home inner
        { run with phase := .replaying tail checkpoint (.between (number :: later)) follower } _ :=
      leads_chunk run hstop hread rfl hchunk
    rw [if_pos hnext] at hlast
    exact hlast
  | case5 follower hstop chunk hread within moved hchunk hnext ih =>
    have hlast : Leads config root folder home inner
        { run with phase := .replaying tail checkpoint (.between (number :: later)) follower } _ :=
      leads_chunk run hstop hread rfl hchunk
    rw [if_neg hnext] at hlast
    exact hlast.trans (ih hrun)

theorem leads_partitions (run : Run (σ × List Event)) (numbers : List UInt32) :
    ∀ (follower : Follower (σ × List Event)) {after : Follower (σ × List Event)}
      {result : Except LogError Unit},
      Replay.partitions (traced inner) run.read tail.revisions numbers follower = (result, after) →
      Leads config root folder home inner
        { run with phase := .replaying tail checkpoint (.between numbers) follower }
        { run with phase := settle tail checkpoint (.between []) after result } := by
  induction numbers with
  | nil =>
    intro follower after result hrun
    obtain ⟨rfl, rfl⟩ := Prod.mk.inj hrun
    exact .refl
  | cons number later ih =>
    intro follower after result hrun
    unfold Replay.partitions at hrun
    rcases hone : Replay.partition (traced inner) run.read number (tail.revisions.get number).offset
      follower with ⟨first, moved⟩
    have hfirst : Leads config root folder home inner
        { run with phase := .replaying tail checkpoint (.between (number :: later)) follower } _ :=
      leads_partition run number follower hone
    rw [hone] at hrun
    cases first with
    | error e =>
      obtain ⟨rfl, rfl⟩ := Prod.mk.inj hrun
      exact hfirst
    | ok _ => exact hfirst.trans (ih moved hrun)

/-- **A topic that is replayed is a row of steps**, from the checkpoint that was kept last to the
live delivery, or to where the replay has failed. -/
theorem leads_replay {state final : σ × List Event} {reached : Except LogError Revisions}
    (hphase : run.phase = .registered tail state)
    (hresumes : (inner.load state.1).1 = lastSaved state.2)
    (hrun : run.topic.replay run.env.disk (traced inner) Replay.chunkSize (inner.load state.1).1
      tail.revisions ((traced inner).load state).2 = (reached, final)) :
    Leads config root folder home inner run
      { run with
        phase := match reached with
          | .ok reached => .live (inner.load state.1).1 tail.consumer ⟨reached, final, 0⟩
          | .error _ => .ended final } := by
  have hloaded : Leads config root folder home inner run _ := .single (.moves (.loaded hphase hresumes))
  rw [Topic.replay] at hrun
  rcases hall : Replay.partitions (traced inner) run.read tail.revisions
    ((List.range run.topic.partitions.length).map UInt32.ofNat)
    ⟨(inner.load state.1).1, ((traced inner).load state).2, 0⟩ with ⟨result, follower⟩
  rw [show (fun position => run.topic.read run.env.disk position Replay.chunkSize) = run.read from
    rfl, hall] at hrun
  obtain ⟨rfl, rfl⟩ := Prod.mk.inj hrun
  have hreplayed : Leads config root folder home inner
      { run with phase := .replaying tail (inner.load state.1).1 (.between _) _ } _ :=
    leads_partitions run _ _ hall
  cases result with
  | error e => exact hloaded.trans hreplayed
  | ok _ => exact (hloaded.trans hreplayed).tail (.moves (.switched rfl))

/-! ## Rounds -/

theorem leads_drain (run : Run (σ × List Event)) (consumer : Queue.ConsumerId)
    (queue : Queue RawCommit) (follower : Follower (σ × List Event)) {turn : Delivery.Turn}
    {last : Queue RawCommit} {ending : Option Ending} {moved : Follower (σ × List Event)}
    (hdrain : Delivery.drain (traced inner) consumer queue follower = (turn, last, moved))
    (hconclude : Delivery.conclude (traced inner) turn moved = (ending, after)) :
    Leads config root folder home inner
      { run with
        topic := { run.topic with queue }
        phase := .live checkpoint consumer follower }
      { run with
        topic := { run.topic with queue := last }
        phase :=
          if ending.isSome then .ended after.state else .live checkpoint consumer after } := by
  fun_induction Delivery.drain (traced inner) consumer queue follower with
  | case1 queue follower between later hpoll ih =>
    exact Relation.ReflTransGen.head (.moves (.polled rfl hpoll)) (ih hdrain)
  | case2 queue follower hover =>
    have hmore : turn ≠ .more := by
      rintro rfl
      exact hover last moved hdrain
    let here : Run (σ × List Event) :=
      { run with
        topic := { run.topic with queue }
        phase := .live checkpoint consumer follower }
    have hstep : Step config root folder home inner here _ := .moves (.concluded rfl hdrain hmore)
    rw [hconclude] at hstep
    cases ending <;> exact .single hstep

/-- **A round of a delivery is a row of steps**, whether it is the last or not. -/
theorem leads_round {delivery later : Delivery (σ × List Event)} {last : Topic}
    (hphase : run.phase = .live checkpoint delivery.consumer delivery.follower)
    (hround : delivery.round (traced inner) run.topic = (later, last)) :
    Leads config root folder home inner run
      { run with
        topic := last
        phase :=
          if later.ending.isSome then .ended later.follower.state
          else .live checkpoint delivery.consumer later.follower } := by
  -- somebody whose session has ended is removed from the queue
  have hleaves : ∀ (queue : Queue RawCommit) (state : σ × List Event),
      Step config root folder home inner
        { run with topic := { run.topic with queue }, phase := .ended state }
        { run with
          topic := { run.topic with queue := queue.unsubscribe delivery.consumer }
          phase := .ended state } :=
    fun _ _ => .happens (.otherLeft delivery.consumer (by simp [Phase.consumer?]))
  cases hcancelled : delivery.cancelled with
  | true =>
    simp only [Delivery.round, hcancelled, if_true, Delivery.conclude] at hround
    obtain ⟨rfl, rfl⟩ := hround
    have hleft : Step config root folder home inner run _ := .moves .left
    rw [hphase] at hleft
    exact (Relation.ReflTransGen.single hleft).tail (hleaves run.topic.queue _)
  | false =>
    rcases hdrain : Delivery.drain (traced inner) delivery.consumer run.topic.queue
      delivery.follower with ⟨turn, queue, moved⟩
    rcases hconclude : Delivery.conclude (traced inner) turn moved with ⟨ending, after⟩
    simp only [Delivery.round, hcancelled, Bool.false_eq_true, if_false, hdrain, hconclude]
      at hround
    obtain ⟨rfl, rfl⟩ := hround
    have hpolls : Leads config root folder home inner
        { run with phase := .live checkpoint _ _ } _ :=
      leads_drain run delivery.consumer run.topic.queue delivery.follower hdrain hconclude
    rw [← hphase] at hpolls
    cases ending with
    | none => exact hpolls
    | some ending => exact hpolls.tail (hleaves queue after.state)

end CommitLog.Resuming
