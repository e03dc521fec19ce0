import CommitLog.Proofs.Queue.Contention.Diary

/-!
# The diary of a ring is faithful

Every step keeps `Faithful`: one lemma for each kind of step, with what the diary notes of it. So
what users have seen of a ring can be read off the ring, in whatever order its parties take their
steps. Every step is the turn of some party, so every run has a diary.
-/

namespace CommitLog.Queue.Contention

variable {α : Type} {machine after : Machine α} {party : Party} {stage next : Stage α}
  {capacity : Nat} {ring : Ring α} {consumer : ConsumerId} {number cursor : Nat}
  {diary later : Diary α} {lock lock' : Lock}

/-! ## Looking -/

theorem Looks.ne_absent (h : Looks ring party stage next) : stage ≠ .absent := by
  cases h <;> exact nofun

theorem Looks.ne_enrolled (h : Looks ring party stage next) (id : ConsumerId) :
    next ≠ .enrolled id := by
  cases h with
  | @foundFull _ offer => exact offer.whenFull_of (motive := (· ≠ .enrolled id)) nofun nofun
  | @wrapped _ offer => exact offer.whenFull_of (motive := (· ≠ .enrolled id)) nofun nofun
  | _ => exact nofun

/-- A look that is not for a value leaves what the diary says of a consumer. -/
theorem Looks.accounts (h : Looks ring (.consumer consumer) stage next)
    (hother : ∀ number, stage ≠ .comparing number)
    (haccounts : Accounts ring diary consumer stage) : Accounts ring diary consumer next := by
  cases h with
  | foundValue | foundNothing => exact absurd rfl (hother _)
  | ended =>
    refine ⟨fun _ => haccounts.placed trivial, nofun, fun hclosed => ?_⟩
    refine ⟨?_, haccounts.ending rfl⟩
    by_contra hopen
    rw [if_neg hopen] at hclosed
    cases hclosed
  | _ => exact ⟨fun _ => haccounts.placed trivial, nofun, nofun⟩

theorem Faithful.look (h : Faithful machine diary)
    (hstage : machine.stages (.consumer consumer) = .comparing number) :
    Faithful machine (diary.look (Sealed machine) consumer) where
  sound := h.sound
  returned := h.returned
  published := h.published
  granted_ne := h.granted_ne
  fresh := h.fresh
  enrolled := h.enrolled
  accounts id := by
    by_cases hid : id = consumer
    · subst hid
      rw [hstage]
      obtain ⟨hsince, hgiven⟩ := (h.accounts id).placed (by rw [hstage]; trivial)
      exact ⟨fun _ => ⟨hsince, hgiven⟩, nofun, nofun⟩
    · refine (h.accounts id).alike ⟨rfl, rfl, ?_, List.prefix_rfl, fun _ => .rfl, fun hc => hc⟩
        fun cursor hmem => h.reach hmem
      exact Function.update_of_ne hid ..
  settled id hsettled := by
    by_cases hid : id = consumer
    · subst hid
      have hsealed : Function.update diary.settled id (Sealed machine) id := hsettled
      rwa [Function.update_self] at hsealed
    · have hwas : Function.update diary.settled consumer (Sealed machine) id := hsettled
      rw [Function.update_of_ne hid] at hwas
      exact h.settled id hwas

/-- A consumer that finds no value has been given everything that is published. -/
theorem Faithful.caughtUp (h : Faithful machine diary)
    (hstage : machine.stages (.consumer consumer) = .comparing number)
    (hnothing : machine.ring.published ≤ number) :
    CaughtUp machine.ring (diary.look (Sealed machine) consumer) consumer := by
  have hlooked : (diary.look (Sealed machine) consumer).looked consumer = diary.returned.length :=
    Function.update_self ..
  have hknows := h.sound.knows (.consumer consumer)
  rw [hstage] at hknows
  obtain ⟨_, hparty, hstands⟩ := hknows
  cases hparty
  have hplaced := (h.accounts consumer).placed (by rw [hstage]; trivial)
  refine ⟨hlooked ▸ hplaced.since_le, Nat.le_of_eq hlooked, fun cursor hmem => ?_⟩
  have hsame : cursor = number := congrArg Prod.snd
    (List.inj_on_of_nodup_map h.sound.memory.distinct hmem hstands rfl)
  have hreach := h.reach hstands
  have hpublished := h.published
  rw [hlooked, hsame]
  show number = (diary.returned.take diary.returned.length).flatten.length
  rw [List.take_length]
  omega

theorem Faithful.looks (h : Faithful machine diary)
    (hlooks : Looks machine.ring party (machine.stages party) next) :
    Faithful (machine.goto party next)
      (diary.note (Sealed machine) party (machine.stages party) next) := by
  have haside : ∀ {diary : Diary α}, Faithful machine diary →
      (∀ id, party = .consumer id → Accounts machine.ring diary id next) →
      Faithful (machine.goto party next) diary := fun h hown =>
    h.goto_aside (.looks hlooks) List.prefix_rfl h.granted_ne rfl rfl rfl (fun hc => hc) hown
      hlooks.ne_absent hlooks.ne_enrolled
  have hother : (∀ number, machine.stages party ≠ .comparing number) →
      Faithful (machine.goto party next) diary := fun hcomparing =>
    haside h fun id hparty => by
      subst hparty
      exact hlooks.accounts hcomparing (h.accounts id)
  generalize hstage : machine.stages party = stage at hlooks hother ⊢
  cases hlooks with
  | @foundValue id =>
    have hlooked := h.look hstage
    refine haside hlooked fun _ hparty => ?_
    cases hparty
    have hplaced := (hlooked.accounts id).placed (by rw [hstage]; trivial)
    exact ⟨fun _ => hplaced, nofun, nofun⟩
  | @foundNothing id number le =>
    have hlooked := h.look hstage
    refine haside hlooked fun _ hparty => ?_
    cases hparty
    have hplaced := (hlooked.accounts id).placed (by rw [hstage]; trivial)
    exact ⟨fun _ => hplaced, fun _ => h.caughtUp hstage le, nofun⟩
  | _ => exact hother nofun

/-! ## The lock -/

theorem Locks.ne_absent (h : Locks ring party lock stage lock' next) : stage ≠ .absent := by
  cases h <;> exact nofun

theorem Locks.ne_enrolled (h : Locks ring party lock stage lock' next) (id : ConsumerId) :
    next ≠ .enrolled id := by
  cases h <;> exact nofun

theorem Locks.accounts (h : Locks ring party lock stage lock' next)
    (haccounts : Accounts ring diary consumer stage) : Accounts ring diary consumer next := by
  cases h with
  | gone => exact ⟨nofun, nofun, nofun⟩
  | _ => exact ⟨fun _ => haccounts.placed trivial, nofun, nofun⟩

theorem Locks.note_eq (h : Locks ring party lock stage lock' next) (diary : Diary α)
    (isSettled : Prop) : diary.note isSettled party stage next = diary := by
  cases party <;> cases h <;> rfl

theorem Faithful.locks (h : Faithful machine diary)
    (hlocks : Locks machine.ring party machine.lock (machine.stages party) lock next) :
    Faithful ({ machine with lock }.goto party next) diary :=
  h.goto_aside (.locks hlocks) List.prefix_rfl h.granted_ne rfl rfl rfl (fun hc => hc)
    (fun id hparty => hlocks.accounts (hparty ▸ h.accounts id)) hlocks.ne_absent
    hlocks.ne_enrolled

/-! ## Publishing -/

/-- Rows that begin the same list of batches and have as many values are the same row. -/
theorem eq_of_prefix {batches one other : List (List α)} (hne : ∀ batch ∈ batches, batch ≠ [])
    (hone : one <+: batches) (hother : other <+: batches)
    (hlength : one.flatten.length = other.flatten.length) : one = other := by
  wlog hle : one.length ≤ other.length generalizing one other
  · exact (this hother hone hlength.symm (Nat.le_of_not_le hle)).symm
  obtain ⟨rest, rfl⟩ := List.prefix_of_prefix_length_le hone hother hle
  rw [List.flatten_append, List.length_append] at hlength
  have hrest : rest.flatten = [] := List.eq_nil_of_length_eq_zero (by omega)
  cases rest with
  | nil => rw [List.append_nil]
  | cons batch rest =>
    have hmem : batch ∈ batches := hother.subset (by simp)
    rw [List.flatten_cons, List.append_eq_nil_iff] at hrest
    exact absurd hrest.1 (hne batch hmem)

theorem Faithful.publishes (h : Faithful machine diary) {id start : Nat} {batch : List α}
    (hstage : machine.stages (.caller id) = .publishing start batch) :
    Faithful ({ machine with ring := publishTo machine.ring (start + batch.length) }.goto
      (.caller id) (.resting (some (.published (.ok ()))))) (diary.publish batch) := by
  have hknows := h.sound.knows (.caller id)
  rw [hstage] at hknows
  obtain ⟨hpending, -, hturn⟩ := hknows
  obtain ⟨before, behind, hgranted, hstart⟩ := hpending.granted
  -- what has returned is what was granted in front of this range
  have hreturned : diary.returned = before := by
    refine eq_of_prefix h.granted_ne h.returned ⟨batch :: behind, hgranted.symm⟩ ?_
    rw [← h.published, hturn, hstart]
  have hstep := Step.published hstage
  refine h.goto (h.sound.step hstep) ⟨behind, ?_⟩ ?_ h.granted_ne rfl (fun other _ => ?_) nofun
    (by rw [hstage]; exact nofun) nofun fun other hsettled => ((h.settled other hsettled).step hstep).1
  · rw [hgranted, ← hreturned, Diary.publish, List.append_assoc, List.singleton_append]
  · show start + batch.length = (diary.returned ++ [batch]).flatten.length
    rw [hreturned, hstart, List.flatten_append, List.length_append, List.flatten_singleton]
  · exact ⟨rfl, rfl, rfl, List.prefix_append _ _, fun _ => .rfl, fun hc => hc⟩

/-! ## Subscribing -/

theorem mem_enroll_of_lt (hlt : consumer < ring.registered) (number cursor : Nat) :
    (consumer, cursor) ∈ (enroll ring number).cursors ↔ (consumer, cursor) ∈ ring.cursors := by
  simp only [enroll, List.mem_append, List.mem_singleton, Prod.mk.injEq]
  exact ⟨fun h => h.resolve_right fun hnew => Nat.ne_of_lt hlt hnew.1, .inl⟩

/-- Only consumers that are registered are at a stage. -/
theorem Faithful.lt_registered (h : Faithful machine diary)
    (hstage : machine.stages (.consumer consumer) ≠ .absent) :
    consumer < machine.ring.registered :=
  Nat.lt_of_not_le fun hle => hstage (h.fresh consumer hle).1

theorem Faithful.enrolls (h : Faithful machine diary) {id : Nat}
    (hstage : machine.stages (.caller id) = .enrolling cursor) :
    Faithful ({ machine with ring := enroll machine.ring cursor }.goto (.caller id)
      (.enrolled machine.ring.registered)) diary := by
  have hstep := Step.enrolled hstage
  have hsame : ∀ consumer, (({ machine with ring := enroll machine.ring cursor } : Machine α).goto
      (.caller id) (.enrolled machine.ring.registered)).stages (.consumer consumer)
        = machine.stages (.consumer consumer) := fun consumer =>
    Machine.stages_goto_of_ne _ _ nofun
  refine {
    sound := h.sound.step hstep
    returned := h.returned
    published := h.published
    granted_ne := h.granted_ne
    fresh := fun consumer hle => ?_
    enrolled := fun caller consumer hcaller => ?_
    accounts := fun consumer => ?_
    settled := fun consumer hsettled => ((h.settled consumer hsettled).step hstep).1 }
  · rw [hsame]
    exact h.fresh consumer (Nat.le_of_succ_le hle)
  · rw [hsame]
    by_cases hcallers : caller = id
    · subst hcallers
      rw [Machine.stages_goto] at hcaller
      cases hcaller
      obtain ⟨habsent, hgiven⟩ := h.fresh _ (Nat.le_refl _)
      exact ⟨habsent, hgiven, cursor, List.mem_append_right _ List.mem_cons_self⟩
    · have hwas : machine.stages (.caller caller) = .enrolled consumer := by
        rw [← hcaller]
        exact (Machine.stages_goto_of_ne _ _ fun hid => hcallers (Party.caller.inj hid)).symm
      obtain ⟨habsent, hgiven, cursor', hmem⟩ := h.enrolled caller consumer hwas
      exact ⟨habsent, hgiven, cursor', List.mem_append_left _ hmem⟩
  · rw [hsame]
    by_cases habsent : machine.stages (.consumer consumer) = .absent
    · rw [habsent]
      exact ⟨nofun, nofun, nofun⟩
    · have hlt := h.lt_registered habsent
      exact (h.accounts consumer).alike
        ⟨rfl, rfl, rfl, List.prefix_rfl, mem_enroll_of_lt hlt cursor, fun hc => hc⟩
        fun other hmem => h.reach hmem

/-- A consumer is handed out where it has its cursor. -/
theorem Faithful.placed_handOut (h : Faithful machine diary) {id : Nat}
    (hstage : machine.stages (.caller id) = .enrolled consumer) :
    Placed machine.ring (diary.handOut consumer) consumer := by
  obtain ⟨-, hgiven, cursor, hmem⟩ := h.enrolled id consumer hstage
  have hsince : (diary.handOut consumer).since consumer = diary.returned.length :=
    Function.update_self ..
  refine ⟨Nat.le_of_eq hsince, cursor, cursor, hmem, Nat.le_refl _, ?_, ?_⟩
  · rw [hsince]
    show cursor ≤ (diary.returned.take diary.returned.length).flatten.length
    rw [List.take_length]
    exact h.reach hmem
  · show diary.given consumer = (diary.returned.flatten.take cursor).drop cursor
    rw [hgiven, List.drop_take_self]

theorem Faithful.subscribes (h : Faithful machine diary) {id : Nat}
    (hstage : machine.stages (.caller id) = .enrolled consumer)
    (hheld : machine.lock = .exclusive (.caller id)) :
    Faithful (({ machine with lock := .shared [] }.goto (.caller id)
      (.resting (some (.registered consumer)))).goto (.consumer consumer) (.resting none))
      (diary.handOut consumer) := by
  have hstep := Step.subscribed hstage hheld
  obtain ⟨habsent, -, -⟩ := h.enrolled id consumer hstage
  have hothers : ∀ other ≠ consumer, (({ machine with lock := .shared [] }.goto (.caller id)
      (.resting (some (.registered consumer)))).goto (.consumer consumer) (.resting none)).stages
        (.consumer other) = machine.stages (.consumer other) := fun other hne => by
    refine (Machine.stages_goto_of_ne _ _ fun hid => hne (Party.consumer.inj hid)).trans ?_
    exact Machine.stages_goto_of_ne _ _ nofun
  refine {
    sound := h.sound.step hstep
    returned := h.returned
    published := h.published
    granted_ne := h.granted_ne
    fresh := fun other hle => ?_
    enrolled := fun caller other hcaller => ?_
    accounts := fun other => ?_
    settled := fun other hsettled => ((h.settled other hsettled).step hstep).1 }
  · obtain ⟨_, hgiven, _, hmem⟩ := h.enrolled id consumer hstage
    have hlt := h.sound.memory.registered _ hmem
    rw [hothers other (Nat.ne_of_gt (Nat.lt_of_lt_of_le hlt hle))]
    exact h.fresh other hle
  · -- whoever else is about to hand a consumer out would hold the list as well
    have hne : Party.caller caller ≠ Party.consumer consumer := nofun
    rw [Machine.stages_goto_of_ne _ _ hne] at hcaller
    have hcallers : caller ≠ id := fun hsame => by
      rw [hsame, Machine.stages_goto] at hcaller
      cases hcaller
    have hwas : machine.stages (.caller caller) = .enrolled other := by
      rwa [Machine.stages_goto_of_ne _ _ fun hid => hcallers (Party.caller.inj hid)] at hcaller
    have hexclusive := (h.sound.holds (.caller caller)).edits (by rw [hwas]; trivial)
    rw [hheld] at hexclusive
    cases hexclusive
    exact absurd rfl hcallers
  · by_cases hother : other = consumer
    · subst hother
      rw [Machine.stages_goto]
      exact ⟨fun _ => h.placed_handOut hstage, nofun, nofun⟩
    · rw [hothers other hother]
      refine (h.accounts other).alike ⟨rfl, ?_, rfl, List.prefix_rfl, fun _ => .rfl, fun hc => hc⟩
        fun cursor hmem => h.reach hmem
      exact Function.update_of_ne hother ..

/-! ## Reading on and leaving -/

theorem mem_moveTo_of_ne {id : ConsumerId} (hne : id ≠ consumer) (number cursor : Nat) :
    (id, cursor) ∈ (moveTo ring consumer number).cursors ↔ (id, cursor) ∈ ring.cursors := by
  refine ⟨fun hmem => ?_, fun hmem => mem_storeCursor_of_ne hmem hne⟩
  rcases mem_storeCursor hmem with hmem | hnew
  · exact hmem
  · exact absurd (congrArg Prod.fst hnew) hne

theorem mem_moveTo_self (hmem : (consumer, number) ∈ ring.cursors) (cursor : Nat) :
    (consumer, cursor) ∈ (moveTo ring consumer cursor).cursors := by
  unfold moveTo
  generalize ring.cursors = cursors at hmem ⊢
  induction cursors with
  | nil => cases hmem
  | cons head rest ih =>
    obtain ⟨id, first⟩ := head
    unfold storeCursor
    split
    next hid =>
      subst hid
      exact List.mem_cons_self
    next hid =>
      rcases List.mem_cons.1 hmem with hhead | hmem
      · exact absurd (congrArg Prod.fst hhead).symm hid
      · exact List.mem_cons_of_mem _ (ih hmem)

theorem Faithful.moves (h : Faithful machine diary) {found : Option α}
    (hstage : machine.stages (.consumer consumer) = .moving number found) :
    Faithful ({ machine with ring := moveTo machine.ring consumer (number + 1) }.goto
      (.consumer consumer) (.resting (some (.polled (told found))))) (diary.give consumer found) := by
  have hstep := Step.moved hstage
  have hknows := h.sound.knows (.consumer consumer)
  rw [hstage] at hknows
  obtain ⟨⟨_, hparty, hstands⟩, hlt, hfound⟩ := hknows
  cases hparty
  obtain ⟨hsince, first, cursor, hmem, hfirst, hfirst', hgiven⟩ :=
    (h.accounts consumer).placed (by rw [hstage]; trivial)
  obtain rfl : cursor = number := congrArg Prod.snd
    (List.inj_on_of_nodup_map h.sound.memory.distinct hmem hstands rfl)
  rw [h.published] at hlt
  have hvalue : found.toList = [diary.returned.flatten[cursor]] := by
    obtain ⟨news, hnews⟩ := h.returned
    rw [hfound, ← hnews, List.flatten_append, List.getElem?_append_left hlt,
      List.getElem?_eq_getElem hlt]
    rfl
  refine h.goto (h.sound.step hstep) h.returned h.published h.granted_ne rfl (fun id hother => ?_)
    (fun id hparty => ?_) (by rw [hstage]; exact nofun) nofun
    fun other hsettled => ((h.settled other hsettled).step hstep).1
  · have hne : id ≠ consumer := fun hid => hother (congrArg _ hid.symm)
    refine ⟨Function.update_of_ne hne .., rfl, rfl, List.prefix_rfl, mem_moveTo_of_ne hne _,
      fun hc => hc⟩
  · cases hparty
    refine ⟨fun _ => ⟨hsince, first, cursor + 1, mem_moveTo_self hmem _, by omega, hfirst', ?_⟩,
      nofun, fun hclosed => ?_⟩
    · show Function.update diary.given consumer _ consumer
        = (diary.returned.flatten.take (cursor + 1)).drop first
      rw [Function.update_self, hgiven, hvalue, ← List.take_append_getElem hlt,
        List.drop_append_of_le_length]
      rw [List.length_take]
      omega
    · -- a poll that took a copy does not end
      cases found <;> cases hclosed

theorem Faithful.delists (h : Faithful machine diary)
    (hstage : machine.stages (.consumer consumer) = .delisting) :
    Faithful ({ machine with ring := machine.ring.unsubscribe consumer }.goto
      (.consumer consumer) .delisted) diary := by
  have hstep := Step.delisted hstage
  refine h.goto (h.sound.step hstep) h.returned h.published h.granted_ne rfl (fun id hother => ?_)
    (fun id hparty => ⟨nofun, nofun, nofun⟩) (by rw [hstage]; exact nofun) nofun
    fun other hsettled => ((h.settled other hsettled).step hstep).1
  have hne : id ≠ consumer := fun hid => hother (congrArg _ hid.symm)
  refine ⟨rfl, rfl, rfl, List.prefix_rfl, fun cursor => ?_, fun hc => hc⟩
  simp [Ring.unsubscribe, hne]

/-! ## Runs -/

/-- The diary notes the move of the party that goes to another stage. -/
theorem Turn.note_goto {base : Machine α} {mover : Party}
    (turn : Turn machine (base.goto mover next) party) (hbase : base.stages = machine.stages)
    (hstage : machine.stages mover ≠ .absent) (diary : Diary α) :
    diary.afterTurn machine (base.goto mover next) party
      = diary.note (Sealed machine) mover (machine.stages mover) next := by
  unfold Diary.afterTurn
  by_cases hparty : party = mover
  · subst hparty
    rw [Machine.stages_goto]
  · have hstays := turn.others mover (Ne.symm hparty) hstage
    rw [Machine.stages_goto] at hstays
    rw [Machine.stages_goto_of_ne _ _ hparty, hbase, Diary.note_self, hstays, Diary.note_self]

/-- **Whatever a step does, its diary says so.** -/
theorem Faithful.turn (h : Faithful machine diary) (turn : Turn machine after party) :
    Faithful after (diary.afterTurn machine after party) := by
  have hstep := turn.step
  cases hstep with
  | looks hlooks =>
    rw [turn.note_goto rfl hlooks.ne_absent]
    exact h.looks hlooks
  | locks hlocks =>
    rw [turn.note_goto rfl hlocks.ne_absent, hlocks.note_eq]
    exact h.locks hlocks
  | @granted id offer start gate hstage hsame =>
    rw [turn.note_goto rfl (by rw [hstage]; exact nofun), hstage]
    refine h.goto_aside (.granted hstage hsame) (List.prefix_append _ _) (fun batch hmem => ?_) rfl
      rfl rfl (fun hc => hc) nofun (by rw [hstage]; exact nofun) nofun
    rcases List.mem_append.1 hmem with hmem | hmem
    · exact h.granted_ne batch hmem
    · rw [List.mem_singleton.1 hmem]
      exact offer.batch_ne
  | filled hstage =>
    rw [turn.note_goto rfl (by rw [hstage]; exact nofun), hstage]
    exact h.goto_aside (.filled hstage) List.prefix_rfl h.granted_ne rfl rfl rfl (fun hc => hc)
      nofun (by rw [hstage]; exact nofun) nofun
  | published hstage =>
    rw [turn.note_goto rfl (by rw [hstage]; exact nofun), hstage]
    exact h.publishes hstage
  | enrolled hstage =>
    rw [turn.note_goto rfl (by rw [hstage]; exact nofun), hstage]
    exact h.enrolls hstage
  | @subscribed id consumer hstage hheld =>
    have hne : Party.caller id ≠ Party.consumer consumer := nofun
    obtain rfl : party = .caller id := by
      by_contra hparty
      have hstays := turn.others (.caller id) (Ne.symm hparty) (by rw [hstage]; exact nofun)
      rw [Machine.stages_goto_of_ne _ _ hne, Machine.stages_goto, hstage] at hstays
      cases hstays
    unfold Diary.afterTurn
    rw [hstage, Machine.stages_goto_of_ne _ _ hne, Machine.stages_goto]
    exact h.subscribes hstage hheld
  | closed hstage =>
    rw [turn.note_goto rfl (by rw [hstage]; exact nofun), hstage]
    exact h.goto_aside (.closed hstage) List.prefix_rfl h.granted_ne rfl rfl rfl (fun _ => rfl)
      nofun (by rw [hstage]; exact nofun) nofun
  | moved hstage =>
    rw [turn.note_goto rfl (by rw [hstage]; exact nofun), hstage]
    exact h.moves hstage
  | delisted hstage =>
    rw [turn.note_goto rfl (by rw [hstage]; exact nofun), hstage]
    exact h.delists hstage

theorem Told.faithful (h : Told capacity machine diary) : Faithful machine diary := by
  induction h with
  | start => exact faithful_start capacity
  | step _ turn ih => exact ih.turn turn

/-- A party goes to another stage in its turn. -/
theorem Turn.of_goto {base : Machine α} (hbase : base.stages = machine.stages)
    (hstep : Step machine (base.goto party next)) : Turn machine (base.goto party next) party :=
  ⟨hstep, fun other hne _ => by rw [Machine.stages_goto_of_ne _ _ hne, hbase]⟩

/-- A consumer is handed out in the turn of the caller that gets it. -/
theorem Faithful.turn_subscribed (h : Faithful machine diary) {id : Nat}
    (hstage : machine.stages (.caller id) = .enrolled consumer)
    (hheld : machine.lock = .exclusive (.caller id)) :
    Turn machine (({ machine with lock := .shared [] }.goto (.caller id)
      (.resting (some (.registered consumer)))).goto (.consumer consumer) (.resting none))
      (.caller id) := by
  refine ⟨.subscribed hstage hheld, fun other hne hpresent => ?_⟩
  have hother : other ≠ .consumer consumer := fun hsame =>
    hpresent (hsame ▸ (h.enrolled id consumer hstage).1)
  rw [Machine.stages_goto_of_ne _ _ hother, Machine.stages_goto_of_ne _ _ hne]

/-- Every step is the turn of some party. -/
theorem Faithful.exists_turn (h : Faithful machine diary) (hstep : Step machine after) :
    ∃ party, Turn machine after party := by
  have hgoto : ∀ {base : Machine α} {mover : Party} {next : Stage α},
      base.stages = machine.stages → Step machine (base.goto mover next) →
      ∃ party, Turn machine (base.goto mover next) party := fun hbase hstep =>
    ⟨_, .of_goto hbase hstep⟩
  cases hstep with
  | subscribed hstage hheld => exact ⟨_, h.turn_subscribed hstage hheld⟩
  | looks hlooks => exact hgoto rfl (.looks hlooks)
  | locks hlocks => exact hgoto rfl (.locks hlocks)
  | granted hstage hsame => exact hgoto rfl (.granted hstage hsame)
  | filled hstage => exact hgoto rfl (.filled hstage)
  | published hstage => exact hgoto rfl (.published hstage)
  | enrolled hstage => exact hgoto rfl (.enrolled hstage)
  | closed hstage => exact hgoto rfl (.closed hstage)
  | moved hstage => exact hgoto rfl (.moved hstage)
  | delisted hstage => exact hgoto rfl (.delisted hstage)

/-- **Every run has a diary.** -/
theorem Told.leads (h : Told capacity machine diary) (hleads : Leads machine after) :
    ∃ later, Continues machine diary after later := by
  induction hleads with
  | refl => exact ⟨diary, .refl⟩
  | tail _ hstep ih =>
    obtain ⟨later, hcontinues⟩ := ih
    obtain ⟨party, turn⟩ := (h.continues hcontinues).faithful.exists_turn hstep
    exact ⟨_, hcontinues.step turn⟩

end CommitLog.Queue.Contention
