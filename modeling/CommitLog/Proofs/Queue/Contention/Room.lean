import CommitLog.Proofs.Queue.Contention.Diary

/-!
# What a producer goes by when it looks for room

A producer loads where the claimed numbers end, and only then, one after the other, where the
published ones end and where the cursors are. Others claim, publish and read in between, so the
two numbers that it holds against each other are of different moments.

What it is told is true of one of these moments all the same: when the smallest of the cursors was
loaded, no fewer numbers were claimed than the producer reckons with. There is one exception. If
others have claimed and published more than the whole range meanwhile, the producer has been
overtaken: the gate lies past the end of its range, and the distance between them has no value.
-/

namespace CommitLog.Queue.Contention

variable {α : Type} {machine after : Machine α} {party : Party} {stage next : Stage α}
  {capacity id n : Nat} {ring : Ring α} {rings more : List (Ring α)}

/-! ## The moments of a call -/

/-- The rings that a call has met so far, one after each step. -/
structure Moments (α : Type) where
  /-- Those from before it last loaded the end of what is claimed. -/
  earlier : List (Ring α) := []
  /-- Those from there until it loaded the end of what is published. -/
  between : List (Ring α) := []
  /-- Those after that. -/
  later : List (Ring α) := []

namespace Moments

variable {moments : Moments α}

/-- The moments of the last attempt to claim a range. -/
def attempt (moments : Moments α) : List (Ring α) := moments.between ++ moments.later

/-- All rings that the call has met. -/
def all (moments : Moments α) : List (Ring α) := moments.earlier ++ moments.attempt

/-- Notes the ring after a step, in which the caller has gone from one stage to another or has
stayed where it was. -/
def note (moments : Moments α) (ring : Ring α) : Stage α → Stage α → Moments α
  | .resting _, .resting _ => moments
  | .resting _, _ => ⟨[ring], [], []⟩
  | .reserving _, .gating _ _ => ⟨moments.all, [ring], []⟩
  | .gating _ _, _ => { moments with between := moments.between ++ [ring] }
  | _, .resting _ => moments
  | _, _ => { moments with later := moments.later ++ [ring] }

theorem mem_attempt_of_between {moment : Ring α} (h : moment ∈ moments.between) :
    moment ∈ moments.attempt := List.mem_append_left _ h

theorem mem_all_of_attempt {moment : Ring α} (h : moment ∈ moments.attempt) :
    moment ∈ moments.all := List.mem_append_right _ h

theorem mem_all_note {moment : Ring α} (h : moment ∈ (moments.note ring stage next).all) :
    moment = ring ∨ moment ∈ moments.all := by
  unfold note at h
  split at h
  next => exact .inr h
  all_goals
    simp only [all, attempt, List.mem_append, List.mem_singleton, List.not_mem_nil] at h ⊢
    tauto

/-- The same call, no shorter a time after. -/
structure Extends (moments later : Moments α) : Prop where
  between : moments.between ⊆ later.between
  later : moments.later ⊆ later.later

theorem Extends.attempt {later : Moments α} (h : moments.Extends later) :
    moments.attempt ⊆ later.attempt := by
  intro moment hmem
  rcases List.mem_append.1 hmem with hbetween | hlater
  · exact List.mem_append_left _ (h.between hbetween)
  · exact List.mem_append_right _ (h.later hlater)

/-- A caller that stays where it is forgets nothing. -/
theorem extends_note_self (moments : Moments α) (ring : Ring α) (stage : Stage α) :
    moments.Extends (moments.note ring stage stage) := by
  cases stage with
  | resting => exact ⟨List.Subset.refl _, List.Subset.refl _⟩
  | gating => exact ⟨List.subset_append_left .., List.Subset.refl _⟩
  | _ => exact ⟨List.Subset.refl _, List.subset_append_left ..⟩

end Moments

/-- What an empty ring can come to, and the moments of the last call of a caller. -/
inductive Watched (capacity id : Nat) : Machine α → Moments α → Prop where
  | start : Watched capacity id (.start capacity) {}
  | step {machine after : Machine α} {moments : Moments α} (h : Watched capacity id machine moments)
      (hstep : Step machine after) :
      Watched capacity id after (moments.note after.ring (machine.stages (.caller id))
        (after.stages (.caller id)))

variable {moments later : Moments α}

theorem Watched.reachable (h : Watched capacity id machine moments) :
    Reachable capacity machine := by
  induction h with
  | start => exact .start
  | step _ hstep ih => exact ih.step hstep

/-- Every run can be watched. -/
theorem Watched.leads (h : Watched capacity id machine moments) (hleads : Leads machine after) :
    ∃ later, Watched capacity id after later := by
  induction hleads with
  | refl => exact ⟨moments, h⟩
  | tail _ hstep ih =>
    obtain ⟨later, hlater⟩ := ih
    exact ⟨_, hlater.step hstep⟩

/-! ## Earlier moments -/

/-- A ring of an earlier moment. Numbers that were claimed by then still are. -/
structure Precedes (before ring : Ring α) : Prop where
  claimed_le : before.claimed ≤ ring.claimed
  capacity_eq : before.capacity = ring.capacity
  published_le : before.published ≤ before.claimed

theorem Sound.precedes_self (h : Sound machine) : Precedes machine.ring machine.ring :=
  ⟨Nat.le_refl _, rfl, h.memory.published_le⟩

theorem Step.claimed_le (h : Step machine after) : machine.ring.claimed ≤ after.ring.claimed := by
  cases h with
  | @granted _ offer _ _ _ same => exact same ▸ Nat.le_add_right _ offer.length
  | _ => exact Nat.le_refl _

theorem Precedes.step (h : Precedes ring machine.ring) (hstep : Step machine after) :
    Precedes ring after.ring :=
  ⟨Nat.le_trans h.claimed_le hstep.claimed_le, h.capacity_eq.trans hstep.capacity_eq.symm,
    h.published_le⟩

/-! ## What the moments of an attempt say -/

/-- A batch of `n` values behind all that is claimed takes more than the capacity, counted from
what is published or from some cursor. -/
def Exceeds (ring : Ring α) (n : Nat) : Prop :=
  ring.capacity + ring.published < ring.claimed + n ∨
    ∃ entry ∈ ring.cursors, ring.capacity + entry.2 < ring.claimed + n

/-- At one of these moments more was published than was claimed at another, and `n` values on
top. -/
def Overtaken (rings : List (Ring α)) (n : Nat) : Prop :=
  ∃ before ∈ rings, ∃ after ∈ rings, before.claimed + n < after.published

theorem exists_mem_mono {p : Ring α → Prop} (h : ∃ ring ∈ rings, p ring) (hsubset : rings ⊆ more) :
    ∃ ring ∈ more, p ring :=
  h.imp fun _ hring => hring.imp_left fun hmem => hsubset hmem

theorem Overtaken.mono (h : Overtaken rings n) (hsubset : rings ⊆ more) : Overtaken more n := by
  obtain ⟨before, hbefore, after, hafter, hlt⟩ := h
  exact ⟨before, hsubset hbefore, after, hsubset hafter, hlt⟩

/-- A gate that was computed after `start` was loaded. It is no further than what was published at
the load of that, and of a moment at which no less was claimed than `start`. -/
structure Gauged (moments : Moments α) (start gate : Nat) : Prop where
  reserved : ∃ ring ∈ moments.between, ring.claimed = start
  le_published : ∃ ring ∈ moments.between, gate ≤ ring.published
  loaded : ∃ ring ∈ moments.attempt, start ≤ ring.claimed ∧
    (gate = ring.published ∨ ∃ entry ∈ ring.cursors, gate = entry.2)

namespace Gauged

variable {start gate : Nat}

theorem mono (h : Gauged moments start gate) (hextends : moments.Extends later) :
    Gauged later start gate where
  reserved := exists_mem_mono h.reserved hextends.between
  le_published := exists_mem_mono h.le_published hextends.between
  loaded := exists_mem_mono h.loaded hextends.attempt

theorem overtaken (h : Gauged moments start gate) (hlt : start + n < gate) :
    Overtaken moments.between n := by
  obtain ⟨before, hbefore, rfl⟩ := h.reserved
  obtain ⟨after, hafter, hle⟩ := h.le_published
  exact ⟨before, hbefore, after, hafter, Nat.lt_of_lt_of_le hlt hle⟩

/-- What does not fit between the gate and the end of the range did not fit at the moment that the
gate is of: no less was claimed then. -/
theorem exceeds (h : Gauged moments start gate)
    (hpast : ∀ moment ∈ moments.attempt, Precedes moment ring)
    (hfull : ring.capacity < start + n - gate) : ∃ moment ∈ moments.attempt, Exceeds moment n := by
  obtain ⟨moment, hmem, hle, hgate⟩ := h.loaded
  have hcapacity := (hpast moment hmem).capacity_eq
  refine ⟨moment, hmem, ?_⟩
  rcases hgate with rfl | ⟨entry, hentry, rfl⟩
  · exact .inl (by omega)
  · exact .inr ⟨entry, hentry, by omega⟩

end Gauged

/-- What the moments of its last attempt say of a producer. -/
def Recalls (moments : Moments α) : Stage α → Prop
  | .gating _ start => ∃ ring ∈ moments.between, ring.claimed = start
  | .listing _ start gate | .scanning _ start gate _ => Gauged moments start gate
  | .weighing _ start gate | .swapping _ start gate => Gauged moments start gate
  | .resting (some (.published (.error ⟨.full, batch⟩))) =>
    (∃ ring ∈ moments.attempt, Exceeds ring batch.length) ∨
      Overtaken moments.between batch.length
  | .resting (some .failed) => Overtaken moments.between 1
  | _ => True

theorem Recalls.mono (h : Recalls moments stage) (hextends : moments.Extends later) :
    Recalls later stage := by
  unfold Recalls at h ⊢
  split at h
  next => exact exists_mem_mono h hextends.between
  next => exact h.mono hextends
  next => exact h.mono hextends
  next => exact h.mono hextends
  next => exact h.mono hextends
  next =>
    exact h.imp (fun hexceeds => exists_mem_mono hexceeds hextends.attempt)
      fun hovertaken => hovertaken.mono hextends.between
  next => exact Overtaken.mono h hextends.between
  next => trivial

/-! ## Steps of the producer -/

/-- A queue is never full at the first look. -/
theorem refusal_ne_full (ring : Ring α) (n : Nat) : ring.refusal? n ≠ some .full := by
  unfold Ring.refusal?
  split
  next => nofun
  next => split <;> nofun

theorem Looks.recalls (h : Looks ring (.caller id) stage next)
    (hpast : ∀ moment ∈ moments.attempt, Precedes moment ring) (hrecalls : Recalls moments stage) :
    Recalls (moments.note ring stage next) next := by
  cases h with
  | @refused _ offer reason refusal =>
    cases reason with
    | full => exact absurd refusal (refusal_ne_full _ _)
    | _ => trivial
  | reserved => exact ⟨ring, List.mem_singleton_self ring, rfl⟩
  | @gated _ _ start =>
    obtain ⟨before, hbefore, rfl⟩ := hrecalls
    have hlast : ring ∈ moments.between ++ [ring] := List.mem_concat_self
    exact ⟨⟨before, List.mem_append_left _ hbefore, rfl⟩, ⟨ring, hlast, Nat.le_refl _⟩,
      ⟨ring, List.mem_append_left _ hlast,
        (hpast before (Moments.mem_attempt_of_between hbefore)).claimed_le, .inl rfl⟩⟩
  | @scanned _ offer start gate cursor consumer _ loaded =>
    obtain ⟨⟨before, hbefore, hstart⟩, hpublished, hloaded⟩ := hrecalls
    have hle : start ≤ ring.claimed :=
      hstart ▸ (hpast before (Moments.mem_attempt_of_between hbefore)).claimed_le
    refine ⟨⟨before, hbefore, hstart⟩, ?_, ?_⟩
    · exact hpublished.imp fun _ hmoment => hmoment.imp_right (Nat.le_trans (Nat.min_le_left ..))
    · -- the smaller one is the gate as it was, or the cursor that was loaded just now
      rcases Nat.le_total gate cursor with hgate | hcursor
      · rw [Nat.min_eq_left hgate]
        exact exists_mem_mono hloaded
          (moments.extends_note_self ring (.scanning offer start gate [])).attempt
      · rw [Nat.min_eq_right hcursor]
        exact ⟨ring, List.mem_append_right _ List.mem_concat_self, hle,
          .inr ⟨(consumer, cursor), mem_of_lookup loaded, rfl⟩⟩
  | foundRoom => exact Gauged.mono hrecalls ⟨List.Subset.refl _, List.subset_append_left ..⟩
  | @foundFull _ offer start gate _ full =>
    exact offer.whenFull_of (motive := fun next =>
      Recalls (moments.note ring (.weighing offer start gate) next) next) trivial
      (.inl (Gauged.exceeds hrecalls hpast full))
  | @wrapped _ offer start gate lt =>
    exact offer.whenFull_of (motive := fun next =>
      Recalls (moments.note ring (.weighing offer start gate) next) next) trivial
      (.inr (Gauged.overtaken hrecalls lt))
  | @overflowed _ offer _ _ lt =>
    have hpos : 0 < offer.length := List.length_pos_iff.2 offer.batch_ne
    exact Gauged.overtaken hrecalls (by omega)
  | _ => trivial

theorem Locks.recalls {lock lock' : Lock} (h : Locks ring (.caller id) lock stage lock' next)
    (hrecalls : Recalls moments stage) : Recalls (moments.note ring stage next) next := by
  cases h with
  | listed | scannedAll =>
    exact Gauged.mono hrecalls ⟨List.Subset.refl _, List.subset_append_left ..⟩
  | _ => trivial

/-! ## Every moment of a run -/

/-- What is so of a caller and the moments of its last call. -/
structure Attested (id : Nat) (machine : Machine α) (moments : Moments α) : Prop where
  past : ∀ moment ∈ moments.all, Precedes moment machine.ring
  recalls : Recalls moments (machine.stages (.caller id))

namespace Attested

/-- Some party goes to another stage. -/
theorem recalls_goto (h : Attested id machine moments) (base : Machine α)
    (hown : party = .caller id → Recalls (moments.note base.ring (machine.stages party) next) next)
    (hbase : base.stages = machine.stages := by rfl) :
    Recalls (moments.note base.ring (machine.stages (.caller id))
        ((base.goto party next).stages (.caller id)))
      ((base.goto party next).stages (.caller id)) := by
  by_cases hparty : party = .caller id
  · subst hparty
    rw [Machine.stages_goto]
    exact hown rfl
  · rw [Machine.stages_goto_of_ne _ _ (Ne.symm hparty), hbase]
    exact h.recalls.mono (moments.extends_note_self ..)

theorem recalls_step (h : Attested id machine moments) (hstep : Step machine after) :
    Recalls (moments.note after.ring (machine.stages (.caller id)) (after.stages (.caller id)))
      (after.stages (.caller id)) := by
  cases hstep with
  | @looks party stage hlooks =>
    refine h.recalls_goto machine fun hparty => ?_
    subst hparty
    exact hlooks.recalls (fun _ hmem => h.past _ (Moments.mem_all_of_attempt hmem)) h.recalls
  | @locks party lock stage hlocks =>
    refine h.recalls_goto { machine with lock } fun hparty => ?_
    subst hparty
    exact hlocks.recalls h.recalls
  | @subscribed caller consumer _ _ =>
    rw [Machine.stages_goto_of_ne _ _ (show Party.caller id ≠ .consumer consumer from nofun)]
    exact h.recalls_goto { machine with lock := .shared [] } fun _ => trivial
  | _ => exact h.recalls_goto { machine with ring := _ } fun _ => trivial

theorem step (h : Attested id machine moments) (hsound : Sound after) (hstep : Step machine after) :
    Attested id after (moments.note after.ring (machine.stages (.caller id))
      (after.stages (.caller id))) where
  past moment hmem := by
    rcases Moments.mem_all_note hmem with rfl | hmem
    · exact hsound.precedes_self
    · exact (h.past moment hmem).step hstep
  recalls := h.recalls_step hstep

end Attested

theorem Watched.attested (h : Watched capacity id machine moments) :
    Attested id machine moments := by
  induction h with
  | start => exact ⟨nofun, trivial⟩
  | step h hstep ih => exact ih.step (h.reachable.step hstep).sound hstep

/-! ## Full -/

/-- **The gate is no further than the end of the range, and a producer is told that the queue is
full only of a moment of its attempt, unless it was overtaken between its first two loads.** -/
theorem full_is_so_unless_overtaken (h : Watched capacity id machine moments) :
    (∀ offer start gate, machine.stages (.caller id) = .weighing offer start gate →
      gate ≤ start + offer.length ∨ Overtaken moments.between offer.length) ∧
    (∀ batch, machine.stages (.caller id) =
        .resting (some (.published (.error ⟨.full, batch⟩))) →
      (∃ moment ∈ moments.attempt, Exceeds moment batch.length) ∨
        Overtaken moments.between batch.length) ∧
    (machine.stages (.caller id) = .resting (some .failed) →
      Overtaken moments.between 1) := by
  have hrecalls := h.attested.recalls
  refine ⟨fun offer start gate hstage => ?_, fun batch hstage => ?_, fun hstage => ?_⟩
  · rw [hstage] at hrecalls
    have hgauged : Gauged moments start gate := hrecalls
    exact (Nat.lt_or_ge (start + offer.length) gate).symm.imp_right hgauged.overtaken
  · rw [hstage] at hrecalls
    exact hrecalls
  · rw [hstage] at hrecalls
    exact hrecalls

/-- A producer is not overtaken where the others claim no more than its range takes. -/
theorem Watched.not_overtaken (h : Watched capacity id machine moments)
    (hclaimed : ∀ before ∈ moments.between, ∀ after ∈ moments.between,
      after.claimed ≤ before.claimed + n) : ¬Overtaken moments.between n := by
  rintro ⟨before, hbefore, after, hafter, hlt⟩
  have hpublished := (h.attested.past after
    (Moments.mem_all_of_attempt (Moments.mem_attempt_of_between hafter))).published_le
  exact Nat.not_lt.2 (hclaimed before hbefore after hafter) (Nat.lt_of_lt_of_le hlt hpublished)

theorem Watched.goto {base : Machine α} (h : Watched capacity id machine moments)
    (hstep : Step machine (base.goto (.caller id) next)) :
    Watched capacity id (base.goto (.caller id) next)
      (moments.note base.ring (machine.stages (.caller id)) next) := by
  have hwatched := h.step hstep
  rwa [Machine.stages_goto] at hwatched

/-- A value that a consumer has not read yet is in the only slot. -/
theorem full_is_so_unless_overtaken_of_unread_value :
    ∃ (machine : Machine Bool) (moments : Moments Bool), Watched 1 0 machine moments ∧
      machine.stages (.caller 0) = .resting (some (.published (.error ⟨.full, [true]⟩))) ∧
      ∃ moment ∈ moments.attempt, Exceeds moment 1 := by
  have hstart : Watched 1 0 (.start 1 : Machine Bool) {} := .start
  -- somebody subscribes, and somebody publishes a value
  have hsubscribed := leads_subscribe 1
    (show (Machine.start 1 : Machine Bool).lock = .shared [] from rfl) rfl
  have hquiet : Quiet _ := ⟨(Reachable.start.leads hsubscribed).sound, rfl, rfl⟩
  obtain ⟨granted, hpublished⟩ := leads_offered hquiet 1 rfl ⟨[true], by decide, false⟩
  obtain ⟨_, hready⟩ := hstart.leads (hsubscribed.trans hpublished)
  -- and there is no room for another one
  have hchecking := hready.goto (.looks
    (show Looks _ (.caller 0) _ _ from .offered ⟨[true], by decide, false⟩))
  have hentering := hchecking.goto (.looks (show Looks _ (.caller 0) _ _ from .admitted rfl))
  have hreserving := hentering.goto (.looks (show Looks _ (.caller 0) _ _ from .foundOpen rfl))
  have hgating := hreserving.goto (.looks (show Looks _ (.caller 0) _ _ from .reserved))
  have hlisting := hgating.goto (.looks (show Looks _ (.caller 0) _ _ from .gated))
  have hscanning := hlisting.goto (.locks (show Locks _ (.caller 0) _ _ _ _ from .listed))
  have hscanned := hscanning.goto (.looks (show Looks _ (.caller 0) _ _ from .scanned rfl))
  have hweighing := hscanned.goto (.locks (show Locks _ (.caller 0) _ _ _ _ from .scannedAll))
  have hfull := hweighing.goto (.looks (show Looks _ (.caller 0) _ _ from
    .foundFull (Nat.zero_le 2) (Nat.lt_succ_self 1)))
  -- nobody else has claimed anything between the two loads
  have hovertaken := hfull.not_overtaken (n := 1) fun before hbefore after hafter => by
    rw [List.eq_of_mem_replicate (show before ∈ List.replicate 2 _ from hbefore),
      List.eq_of_mem_replicate (show after ∈ List.replicate 2 _ from hafter)]
    exact Nat.le_succ 1
  exact ⟨_, _, hfull, rfl,
    ((full_is_so_unless_overtaken hfull).2.1 [true] rfl).resolve_right hovertaken⟩

/-- **A producer is told that the queue is full although every slot is free.** Its gate lies past
the end of its range: two values were published between its first two loads, which nobody is to
read. -/
theorem full_is_told_where_all_is_free :
    ∃ (machine after : Machine Bool) (moments later : Moments Bool) (offer : Offer Bool)
      (start gate : Nat), Watched 4 0 machine moments ∧
      machine.stages (.caller 0) = .weighing offer start gate ∧ start + offer.length < gate ∧
      Watched 4 0 after later ∧ Step machine after ∧
      after.stages (.caller 0) = .resting (some (.published (.error ⟨.full, offer.batch⟩))) ∧
      ∀ moment ∈ later.all, ¬Exceeds moment offer.length := by
  have hstart : Watched 4 0 (.start 4 : Machine Bool) {} := .start
  -- the producer loads that nothing is claimed
  have hchecking := hstart.goto (.looks
    (show Looks _ (.caller 0) _ _ from .offered ⟨[true], by decide, false⟩))
  have hentering := hchecking.goto (.looks (show Looks _ (.caller 0) _ _ from .admitted rfl))
  have hreserving := hentering.goto (.looks (show Looks _ (.caller 0) _ _ from .foundOpen rfl))
  have hgating := hreserving.goto (.looks (show Looks _ (.caller 0) _ _ from .reserved))
  -- somebody else publishes two values
  obtain ⟨granted, hpublished⟩ := leads_offered ⟨hgating.reachable.sound, rfl, rfl⟩ 1 rfl
    ⟨[false, false], by decide, false⟩
  obtain ⟨_, hovertaken⟩ := hgating.leads hpublished
  -- and the producer loads that they are published
  have hlisting := hovertaken.goto (.looks (show Looks _ (.caller 0) _ _ from .gated))
  have hscanning := hlisting.goto (.locks (show Locks _ (.caller 0) _ _ _ _ from .listed))
  have hweighing := hscanning.goto (.locks (show Locks _ (.caller 0) _ _ _ _ from .scannedAll))
  have hfull := hweighing.goto (.looks (show Looks _ (.caller 0) _ _ from
    .wrapped (Nat.lt_succ_self 1)))
  refine ⟨_, _, _, _, _, _, _, hweighing, rfl, Nat.lt_succ_self 1, hfull,
    .looks (show Looks _ (.caller 0) _ _ from .wrapped (Nat.lt_succ_self 1)), rfl, ?_⟩
  -- no more than two numbers were claimed at any time
  intro moment hmem hexceeds
  have hpast := hfull.attested.past moment hmem
  have hclaimed : moment.claimed ≤ 2 := hpast.claimed_le
  have hcapacity : moment.capacity = 4 := hpast.capacity_eq
  have hexceeds : 4 + moment.published < moment.claimed + 1 ∨
      ∃ entry ∈ moment.cursors, 4 + entry.2 < moment.claimed + 1 := by
    rwa [← hcapacity]
  rcases hexceeds with hlt | ⟨_, _, hlt⟩ <;> omega

end CommitLog.Queue.Contention
