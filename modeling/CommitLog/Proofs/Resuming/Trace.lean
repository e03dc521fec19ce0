import CommitLog.Proofs.Handover.Positions
import CommitLog.Proofs.Revisions
import Mathlib.Data.List.Induction

/-!
# What a subscriber has been told

A subscriber may fail, and a session may come to its end anywhere. What is left is what was asked of
the subscriber, and what it has answered. `Told` says what makes every event right by those before
it: a commit is handed over when all before it in its partition have been taken, and lies behind the
last checkpoint that was kept; and a checkpoint that is to be kept vouches for commits that have
been taken, and is not behind the one before. A follower that is backed by what has been taken
(`Backed`) goes on to ask for what is right, whatever comes of it.
-/

namespace CommitLog.Resuming

open CommitLog.Handover (extent)
open CommitLog.Topic (IsHistory)

variable {σ : Type} {config : Config} {commits more : List RawCommit} {commit : RawCommit}
  {number : UInt32} {checkpoint : Revisions} {handled : Handled}

/-! ## Events -/

/-- Something that was asked of a subscriber, and what has come of it. -/
inductive Event where
  | handed (commit : RawCommit) (handled : Handled)
  | saved (checkpoint : Revisions) (result : Except LogError Unit)
deriving DecidableEq

/-- A subscriber together with a record of what was asked of it. -/
def traced (subscriber : Subscriber σ) : Subscriber (σ × List Event) where
  load state :=
    let (revisions, own) := subscriber.load state.1
    (revisions, own, state.2)
  handle commit state :=
    let (handled, own) := subscriber.handle commit state.1
    (handled, own, state.2 ++ [.handed commit handled])
  save revisions state :=
    let (result, own) := subscriber.save revisions state.1
    (result, own, state.2 ++ [.saved revisions result])

/-- The checkpoint that holds after an event. -/
def Event.last (last : Revisions) : Event → Revisions
  | saved checkpoint (.ok ()) => checkpoint
  | _ => last

/-- The checkpoint that was kept last; none at first. -/
def lastSaved (events : List Event) : Revisions := events.foldl Event.last .empty

variable {events before : List Event} {event : Event}

@[simp] theorem lastSaved_snoc (events : List Event) (event : Event) :
    lastSaved (events ++ [event]) = event.last (lastSaved events) := by
  unfold lastSaved
  rw [List.foldl_append]
  rfl

/-! ## What makes an event right -/

/-- Whatever comes before a checkpoint has been taken. -/
def Vouched (config : Config) (commits : List RawCommit) (events : List Event)
    (checkpoint : Revisions) : Prop :=
  ∀ number, number < config.partitions → ∃ front, front <+: commitsIn commits number ∧
    extent front = (checkpoint.get number).offset.toNat ∧
    ∀ commit ∈ front, .handed commit .taken ∈ events

/-- An event is right by the events before it. -/
def Justified (config : Config) (commits : List RawCommit) (before : List Event) : Event → Prop
  | .handed commit _ =>
    ∃ front later, commitsIn commits commit.partition = front ++ commit :: later ∧
      (∀ other ∈ front, .handed other .taken ∈ before) ∧
      ((lastSaved before).get commit.partition).offset.toNat ≤ extent front
  | .saved checkpoint _ =>
    Vouched config commits before checkpoint ∧
      ∀ number, ((lastSaved before).get number).offset ≤ (checkpoint.get number).offset

/-- Every event is right. -/
def Told (config : Config) (commits : List RawCommit) (events : List Event) : Prop :=
  ∀ before event later, events = before ++ event :: later → Justified config commits before event

theorem commitsIn_mono (h : commits <+: more) (number : UInt32) :
    commitsIn commits number <+: commitsIn more number := by
  obtain ⟨rest, rfl⟩ := h
  rw [Partition.commitsIn_append]
  exact List.prefix_append _ _

/-- What more is committed, and what more happens, takes nothing back. -/
theorem Vouched.mono {later : List Event} (h : Vouched config commits events checkpoint)
    (hcommits : commits <+: more) (hevents : events ⊆ later) :
    Vouched config more later checkpoint := by
  intro number hnumber
  obtain ⟨front, hfront, hextent, htaken⟩ := h number hnumber
  exact ⟨front, hfront.trans (commitsIn_mono hcommits number), hextent,
    fun commit hcommit => hevents (htaken commit hcommit)⟩

theorem Justified.mono (h : Justified config commits before event) (hcommits : commits <+: more) :
    Justified config more before event := by
  cases event with
  | handed commit handled =>
    obtain ⟨front, later, hsplit, htaken, hle⟩ := h
    obtain ⟨rest, hrest⟩ := commitsIn_mono hcommits commit.partition
    refine ⟨front, later ++ rest, ?_, htaken, hle⟩
    rw [← hrest, hsplit, List.append_assoc]
    rfl
  | saved checkpoint result =>
    exact ⟨h.1.mono hcommits fun _ hmem => hmem, h.2⟩

theorem Told.mono (h : Told config commits events) (hcommits : commits <+: more) :
    Told config more events :=
  fun before event later hsplit => (h before event later hsplit).mono hcommits

theorem told_nil : Told config commits [] := by
  intro before event later hsplit
  simp at hsplit

theorem Told.snoc (h : Told config commits events) (hevent : Justified config commits events event) :
    Told config commits (events ++ [event]) := by
  intro before other later hsplit
  rcases List.eq_nil_or_concat later with rfl | ⟨rest, last, rfl⟩
  · obtain ⟨rfl, hlast⟩ := List.append_inj' hsplit rfl
    obtain rfl := (List.cons.inj hlast).1
    exact hevent
  · rw [List.concat_eq_append, ← List.cons_append, ← List.append_assoc] at hsplit
    exact h before other rest (List.append_inj' hsplit rfl).1

/-- What was kept last vouches for commits that have been taken. -/
theorem Told.vouched (h : Told config commits events) :
    Vouched config commits events (lastSaved events) := by
  -- on the events from the end: either the last one is a checkpoint that was kept, or the
  -- checkpoint is the one that held before it
  induction events using List.reverseRecOn with
  | nil =>
    intro number _
    exact ⟨[], List.nil_prefix, rfl, by simp⟩
  | append_singleton events event ih =>
    have hbefore := ih fun before other later hsplit =>
      h before other (later ++ [event]) (by rw [hsplit, List.append_assoc]; rfl)
    have hstays : Vouched config commits (events ++ [event]) (lastSaved events) :=
      hbefore.mono (List.prefix_refl _) (List.subset_append_left _ _)
    rw [lastSaved_snoc]
    cases event with
    | handed commit handled => exact hstays
    | saved checkpoint result =>
      cases result with
      | error e => exact hstays
      | ok _ =>
        obtain ⟨hvouched, -⟩ := h events (.saved checkpoint (.ok ())) [] rfl
        exact hvouched.mono (List.prefix_refl _) (List.subset_append_left _ _)

/-! ## Followers -/

/-- A follower stands where everything before it has been taken, and not behind what was kept. -/
structure Backed (config : Config) (commits : List RawCommit) (follower : Follower (σ × List Event)) :
    Prop where
  told : Told config commits follower.state.2
  vouched : Vouched config commits follower.state.2 follower.reached
  ahead : ∀ number, ((lastSaved follower.state.2).get number).offset
    ≤ (follower.reached.get number).offset

/-- A commit comes right behind what a follower has seen of its partition. -/
def IsNext (config : Config) (commits : List RawCommit) (reached : Revisions) (commit : RawCommit) :
    Prop :=
  commit.partition < config.partitions ∧
    ∃ front later, commitsIn commits commit.partition = front ++ commit :: later ∧
      extent front = (reached.get commit.partition).offset.toNat

variable {follower : Follower (σ × List Event)}

/-- A follower that has loaded its checkpoint. -/
theorem Told.backed {state : σ × List Event} (h : Told config commits state.2) (unsaved : Nat) :
    Backed config commits ⟨lastSaved state.2, state, unsaved⟩ where
  told := h
  vouched := h.vouched
  ahead _ := UInt64.le_refl _

theorem Backed.mono (h : Backed config commits follower) (hcommits : commits <+: more) :
    Backed config more follower where
  told := h.told.mono hcommits
  vouched := h.vouched.mono hcommits fun _ hmem => hmem
  ahead := h.ahead

theorem Backed.congr {after : Follower (σ × List Event)} (h : Backed config commits follower)
    (hreached : after.reached = follower.reached) (hevents : after.state.2 = follower.state.2) :
    Backed config commits after where
  told := by rw [hevents]; exact h.told
  vouched := by rw [hevents, hreached]; exact h.vouched
  ahead := by rw [hevents, hreached]; exact h.ahead

/-- **A follower may have its checkpoint saved at any time**, and may go on if that fails. -/
theorem Backed.save (h : Backed config commits follower) (subscriber : Subscriber σ) :
    Backed config commits (follower.save (traced subscriber)).2 where
  told := h.told.snoc ⟨h.vouched, h.ahead⟩
  vouched := h.vouched.mono (List.prefix_refl _) (List.subset_append_left _ _)
  ahead number := by
    show ((lastSaved (follower.state.2 ++ [Event.saved follower.reached
      (subscriber.save follower.reached follower.state.1).1])).get number).offset
        ≤ (follower.reached.get number).offset
    rw [lastSaved_snoc]
    cases (subscriber.save follower.reached follower.state.1).1 with
    | ok _ => exact UInt64.le_refl _
    | error e => exact h.ahead number

theorem Backed.saveNew (h : Backed config commits follower) (subscriber : Subscriber σ) :
    Backed config commits (follower.saveNew (traced subscriber)).2 := by
  unfold Follower.saveNew
  split
  next => exact h
  next => exact h.save subscriber

/-- The commits that a follower has seen of a partition. -/
theorem Backed.taken (h : Backed config commits follower) (hhistory : IsHistory config commits)
    (hnumber : number < config.partitions) {front : List RawCommit}
    (hfront : front <+: commitsIn commits number)
    (hextent : extent front = (follower.reached.get number).offset.toNat) :
    ∀ other ∈ front, .handed other .taken ∈ follower.state.2 := by
  obtain ⟨seen, hseen, hsame, htaken⟩ := h.vouched number hnumber
  have hpos := Handover.entries_ne_of_mem hhistory number
  have hle : front <+: seen :=
    Handover.prefix_of_extent_le hpos hfront hseen (Nat.le_of_eq (hextent.trans hsame.symm))
  exact fun other hother => htaken other (hle.subset hother)

/-- The next commit may be handed over, whatever comes of it. -/
theorem Backed.justified (h : Backed config commits follower) (hhistory : IsHistory config commits)
    (hnext : IsNext config commits follower.reached commit) (handled : Handled) :
    Justified config commits follower.state.2 (.handed commit handled) := by
  obtain ⟨hlt, front, later, hsplit, hextent⟩ := hnext
  refine ⟨front, later, hsplit, ?_, ?_⟩
  · exact h.taken hhistory hlt ⟨commit :: later, hsplit.symm⟩ hextent
  · rw [hextent]
    exact UInt64.le_iff_toNat_le.1 (h.ahead commit.partition)

/-- **A follower may hand over the next commit**, and may go on from where it is. -/
theorem Backed.handed (h : Backed config commits follower) (hhistory : IsHistory config commits)
    (hnext : IsNext config commits follower.reached commit) (subscriber : Subscriber σ) :
    Backed config commits
      { follower with state := ((traced subscriber).handle commit follower.state).2 } where
  told := h.told.snoc (h.justified hhistory hnext _)
  vouched := h.vouched.mono (List.prefix_refl _) (List.subset_append_left _ _)
  ahead number := by
    show ((lastSaved (follower.state.2 ++ [Event.handed commit
      (subscriber.handle commit follower.state.1).1])).get number).offset
        ≤ (follower.reached.get number).offset
    rw [lastSaved_snoc]
    exact h.ahead number

/-- **When the commit is taken, the follower may go on behind it.** -/
theorem Backed.advance (h : Backed config commits follower) (hhistory : IsHistory config commits)
    (hlimit : extent (commitsIn commits commit.partition) ≤ Disk.maxFileLength)
    (hnext : IsNext config commits follower.reached commit) {subscriber : Subscriber σ}
    (htaken : ((traced subscriber).handle commit follower.state).1 = .taken) :
    Backed config commits
      (follower.taken commit ((traced subscriber).handle commit follower.state).2) := by
  have hhanded := h.handed hhistory hnext subscriber
  obtain ⟨hlt, front, later, hsplit, hextent⟩ := hnext
  obtain ⟨-, -, hactual⟩ := Handover.place_of_split hhistory hlimit hsplit
  have hle : (follower.reached.get commit.partition).offset ≤ commit.actual.offset := by
    rw [UInt64.le_iff_toNat_le, hactual, hextent]
    exact Nat.le_add_right _ _
  have hget : ∀ number, (follower.reached.advance commit.actual).get number
      = if number = commit.partition then commit.actual else follower.reached.get number :=
    Revisions.get_advance_of_le hle
  refine ⟨hhanded.told, fun number hnumber => ?_, fun number => ?_⟩
  · show ∃ front, _ ∧ _ = ((follower.reached.advance commit.actual).get number).offset.toNat ∧ _
    rw [hget]
    split
    next hsame =>
      subst hsame
      refine ⟨front ++ [commit], ⟨later, by rw [hsplit]; simp⟩, ?_, ?_⟩
      · rw [hactual, Handover.extent_append]
        rfl
      · intro other hother
        rcases List.mem_append.1 hother with hother | hother
        · exact List.mem_append_left _
            (h.taken hhistory hlt ⟨commit :: later, hsplit.symm⟩ hextent other hother)
        · rw [List.mem_singleton.1 hother]
          refine List.mem_append_right _ (List.mem_singleton.2 ?_)
          rw [show (subscriber.handle commit follower.state.1).1 = .taken from htaken]
    next => exact hhanded.vouched number hnumber
  · refine UInt64.le_trans (hhanded.ahead number) ?_
    show (follower.reached.get number).offset
      ≤ ((follower.reached.advance commit.actual).get number).offset
    rw [hget]
    split
    next hsame => rw [hsame]; exact hle
    next => exact UInt64.le_refl _

/-! ## What follows for a subscriber -/

/-- A commit that a checkpoint covers has been taken, if the checkpoint is vouched for. -/
theorem Vouched.taken (h : Vouched config commits events checkpoint)
    (hhistory : IsHistory config commits)
    (hlimit : extent (commitsIn commits commit.partition) ≤ Disk.maxFileLength)
    (hcommit : commit ∈ commits) (hcovers : checkpoint.covers commit.actual = true) :
    .handed commit .taken ∈ events := by
  obtain ⟨front, hfront, hextent, htaken⟩ := h commit.partition (hhistory.lt commit hcommit)
  have hmem : commit ∈ commitsIn commits commit.partition :=
    List.mem_filter.2 ⟨hcommit, beq_self_eq_true _⟩
  obtain ⟨before, later, hsplit⟩ := List.append_of_mem hmem
  obtain ⟨-, -, hactual⟩ := Handover.place_of_split hhistory hlimit hsplit
  have hle : commit.actual.offset.toNat ≤ extent front := by
    rw [hextent]
    exact UInt64.le_iff_toNat_le.1 (of_decide_eq_true hcovers)
  have hinside : before ++ [commit] <+: front := by
    refine Handover.prefix_of_extent_le (Handover.entries_ne_of_mem hhistory _)
      ⟨later, by rw [hsplit]; simp⟩ hfront ?_
    rw [Handover.extent_append, Handover.extent_cons, Handover.extent_nil]
    omega
  exact htaken commit (hinside.subset (by simp))

end CommitLog.Resuming
