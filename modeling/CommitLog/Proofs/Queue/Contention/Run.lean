import CommitLog.Proofs.Queue.Contention.Kept

/-!
# A ring stays sound

Every step keeps `Sound`: the party that takes it comes to know what its next stage asks for, the
others still know what they knew, and nobody gets in the way of anybody. So it holds of whatever a
ring comes to, in whatever order its parties take their steps.
-/

namespace CommitLog.Queue.Contention

variable {α : Type} {ring : Ring α} {granted : List (List α)} {party other : Party}
  {stage next : Stage α} {lock lock' : Lock} {machine after : Machine α} {capacity : Nat}

/-! ## Stages that ask for no more -/

/-- A stage that claims no other range, relies on no other gate and adds no other cursor. -/
structure Stage.Within (next stage : Stage α) : Prop where
  range? : next.range? = none ∨ next.range? = stage.range?
  gate? : next.gate? = none ∨ next.gate? = stage.gate?
  enrolling : ∀ cursor, next ≠ .enrolling cursor

theorem Agree.of_within {one : Stage α} (h : Agree stage one) (hwithin : next.Within stage) :
    Agree next one where
  apart range hrange := by
    rcases hwithin.range? with hnone | hsame
    · rw [hnone] at hrange
      cases hrange
    · rw [hsame] at hrange
      exact h.apart range hrange
  ahead cursor gate hcursor := absurd hcursor (hwithin.enrolling cursor)

theorem Agree.to_within {one : Stage α} (h : Agree one stage) (hwithin : next.Within stage) :
    Agree one next where
  apart range hrange range' hrange' := by
    rcases hwithin.range? with hnone | hsame
    · rw [hnone] at hrange'
      cases hrange'
    · rw [hsame] at hrange'
      exact h.apart range hrange range' hrange'
  ahead cursor gate hcursor hgate := by
    rcases hwithin.gate? with hnone | hsame
    · rw [hnone] at hgate
      cases hgate
    · rw [hsame] at hgate
      exact h.ahead cursor gate hcursor hgate

/-! ## One party at another stage -/

/-- A party goes to another stage, having written to the ring or taken the lock. -/
theorem Sound.goto (h : Sound machine) (hmemory : Memory ring granted)
    (hknows : ∀ other ≠ party, Knows ring granted other (machine.stages other))
    (hown : Knows ring granted party next)
    (hagree : ∀ other ≠ party, Agree next (machine.stages other) ∧
      Agree (machine.stages other) next)
    (hholds : ∀ other ≠ party, Holds lock other (machine.stages other))
    (hheld : Holds lock party next) :
    Sound (({ machine with ring, granted, lock } : Machine α).goto party next) where
  memory := hmemory
  knows other := by
    by_cases hother : other = party
    · subst hother
      simpa [Machine.goto] using hown
    · simpa [Machine.goto, hother] using hknows other hother
  agree one other hne := by
    by_cases hone : one = party
    · subst hone
      simpa [Machine.goto, hne.symm] using (hagree other hne.symm).1
    · by_cases hother : other = party
      · subst hother
        simpa [Machine.goto, hne] using (hagree one hne).2
      · simpa [Machine.goto, hone, hother] using h.agree one other hne
  holds other := by
    by_cases hother : other = party
    · subst hother
      simpa [Machine.goto] using hheld
    · simpa [Machine.goto, hother] using hholds other hother

/-- The same where the next stage asks for no more than the last one. -/
theorem Sound.goto_within (h : Sound machine) (hmemory : Memory ring granted)
    (hknows : ∀ other ≠ party, Knows ring granted other (machine.stages other))
    (hown : Knows ring granted party next) (hwithin : next.Within (machine.stages party))
    (hholds : ∀ other ≠ party, Holds lock other (machine.stages other))
    (hheld : Holds lock party next) :
    Sound (({ machine with ring, granted, lock } : Machine α).goto party next) :=
  h.goto hmemory hknows hown
    (fun other hne => ⟨(h.agree party other hne.symm).of_within hwithin,
      (h.agree other party hne).to_within hwithin⟩) hholds hheld

/-! ## Steps that only look -/

theorem Offer.whenFull_of {motive : Stage α → Prop} (offer : Offer α)
    (hagain : motive (.entering offer))
    (hfull : motive (.resting (some (.published (.error ⟨.full, offer.batch⟩))))) :
    motive offer.whenFull := by
  unfold whenFull
  split
  next => exact hagain
  next => exact hfull

namespace Looks

/-- What a party comes to know by a look at the ring. -/
theorem knows (h : Looks ring party stage next) (hmemory : Memory ring granted)
    (hknows : Knows ring granted party stage) : Knows ring granted party next := by
  cases h with
  | gated => exact Nat.le_refl ring.published
  | @scanned _ _ _ _ _ consumer _ loaded =>
    refine ⟨Nat.le_trans (Nat.min_le_left _ _) hknows.published, fun id cursor hmem hid => ?_⟩
    -- the cursor was loaded just now, or was below the gate before
    by_cases hloaded : id = consumer
    · subst hloaded
      obtain rfl := Option.some.inj (loaded.symm.trans (lookup_of_mem hmemory.distinct hmem))
      exact Nat.min_le_right _ _
    · refine Nat.le_trans (Nat.min_le_left _ _) (hknows.cursors id cursor hmem ?_)
      exact List.not_mem_cons_of_ne_of_not_mem hloaded hid
  | foundRoom le room => exact ⟨hknows, by omega⟩
  | @foundFull _ offer => exact offer.whenFull_of trivial trivial
  | @wrapped _ offer => exact offer.whenFull_of trivial trivial
  | filledAll => simpa only [Knows, List.append_nil] using hknows
  | foundTurn turn => exact ⟨hknows.1, hknows.2, turn⟩
  | observed => exact ⟨Nat.le_refl _, hmemory.room⟩
  | loaded cursor => exact ⟨_, rfl, mem_of_lookup cursor⟩
  | foundValue lt => exact ⟨hknows, lt⟩
  | copied =>
    obtain ⟨⟨id, hparty, hmem⟩, hlt⟩ := hknows
    exact ⟨⟨id, hparty, hmem⟩, hlt, hmemory.stored_of_mem hmem (Nat.le_refl _) hlt⟩
  | _ => trivial

/-- A look at the ring claims no range. Only one that is to become a cursor is relied on. -/
theorem within (h : Looks ring party stage next) :
    next.Within stage ∨ stage = .observing ∧ next = .enrolling ring.published := by
  cases h with
  | observed => exact .inr ⟨rfl, rfl⟩
  | foundRoom => exact .inl ⟨.inl rfl, .inr rfl, nofun⟩
  | @foundFull _ offer =>
    exact .inl (offer.whenFull_of (motive := (Stage.Within · _)) ⟨.inl rfl, .inl rfl, nofun⟩
      ⟨.inl rfl, .inl rfl, nofun⟩)
  | @wrapped _ offer =>
    exact .inl (offer.whenFull_of (motive := (Stage.Within · _)) ⟨.inl rfl, .inl rfl, nofun⟩
      ⟨.inl rfl, .inl rfl, nofun⟩)
  | filledAll => exact .inl ⟨.inr (by simp [Stage.range?]), .inl rfl, nofun⟩
  | foundTurn => exact .inl ⟨.inr rfl, .inl rfl, nofun⟩
  | _ => exact .inl ⟨.inl rfl, .inl rfl, nofun⟩

/-- A look at the ring needs no lock that is not held. -/
theorem holds (h : Looks ring party stage next) (hholds : Holds lock party stage) :
    Holds lock party next := by
  cases h with
  | scanned => exact ⟨hholds.lists, nofun⟩
  | observed => exact ⟨nofun, hholds.edits⟩
  | @foundFull _ offer => exact offer.whenFull_of ⟨nofun, nofun⟩ ⟨nofun, nofun⟩
  | @wrapped _ offer => exact offer.whenFull_of ⟨nofun, nofun⟩ ⟨nofun, nofun⟩
  | _ => exact ⟨nofun, nofun⟩

end Looks

theorem Sound.looks (h : Sound machine)
    (hlooks : Looks machine.ring party (machine.stages party) next) :
    Sound (machine.goto party next) := by
  have hown := hlooks.knows h.memory (h.knows party)
  have hheld := hlooks.holds (h.holds party)
  rcases hlooks.within with hwithin | ⟨-, rfl⟩
  · exact h.goto_within h.memory (fun other _ => h.knows other) hown hwithin
      (fun other _ => h.holds other) hheld
  · refine h.goto h.memory (fun other _ => h.knows other) hown (fun other hne => ⟨?_, ?_⟩)
      (fun other _ => h.holds other) hheld
    · exact ⟨nofun, fun cursor gate hcursor hgate => by
        cases hcursor
        exact ((h.knows other).below hgate).published⟩
    · exact ⟨fun _ _ _ => nofun, fun _ _ _ => nofun⟩

/-! ## Steps at the lock -/

section Lock

variable {holders : List Party}

theorem Holds.listed (h : Holds (.shared holders) other stage) (party : Party) :
    Holds (.shared (party :: holders)) other stage where
  lists hlists := by
    obtain ⟨_, hlock, hmem⟩ := h.lists hlists
    cases hlock
    exact ⟨_, rfl, List.mem_cons_of_mem _ hmem⟩
  edits hedits := nomatch h.edits hedits

theorem Holds.unlisted (h : Holds (.shared holders) other stage) (hne : other ≠ party) :
    Holds (.shared (holders.erase party)) other stage where
  lists hlists := by
    obtain ⟨_, hlock, hmem⟩ := h.lists hlists
    cases hlock
    exact ⟨_, rfl, (List.mem_erase_of_ne hne).2 hmem⟩
  edits hedits := nomatch h.edits hedits

/-- Whoever takes the list to write finds nobody else at it. -/
theorem Holds.taken (h : Holds (.shared []) other stage) (party : Party) :
    Holds (.exclusive party) other stage where
  lists hlists := by
    obtain ⟨_, hlock, hmem⟩ := h.lists hlists
    cases hlock
    cases hmem
  edits hedits := nomatch h.edits hedits

theorem Holds.freed (h : Holds (.exclusive party) other stage) (hne : other ≠ party) :
    Holds (.shared []) other stage where
  lists hlists := by
    obtain ⟨_, hlock, -⟩ := h.lists hlists
    cases hlock
  edits hedits := by
    cases h.edits hedits
    exact absurd rfl hne

end Lock

namespace Locks

theorem knows (h : Locks ring party lock stage lock' next)
    (hknows : Knows ring granted party stage) : Knows ring granted party next := by
  cases h with
  | listed =>
    exact ⟨hknows, fun id cursor hmem hid => absurd (List.mem_map_of_mem hmem) hid⟩
  | scannedAll => exact hknows
  | _ => trivial

/-- Whoever has looked at all cursors has a gate, and nobody was adding a cursor meanwhile. -/
theorem within (h : Locks ring party lock stage lock' next) :
    next.Within stage ∨ next.range? = none ∧ (∀ cursor, next ≠ .enrolling cursor) ∧
      ∃ holders, lock = .shared holders := by
  cases h with
  | scannedAll => exact .inr ⟨rfl, nofun, _, rfl⟩
  | _ => exact .inl ⟨.inl rfl, .inl rfl, nofun⟩

theorem holds (h : Locks ring party lock stage lock' next) : Holds lock' party next := by
  cases h with
  | listed => exact ⟨fun _ => ⟨_, rfl, List.mem_cons_self⟩, nofun⟩
  | enlisted => exact ⟨nofun, fun _ => rfl⟩
  | counted => exact ⟨fun _ => ⟨_, rfl, List.mem_cons_self⟩, nofun⟩
  | left => exact ⟨nofun, fun _ => rfl⟩
  | _ => exact ⟨nofun, nofun⟩

theorem holds_of_ne {one : Stage α} (h : Locks ring party lock stage lock' next)
    (hne : other ≠ party) (hholds : Holds lock other one) : Holds lock' other one := by
  cases h with
  | listed => exact hholds.listed party
  | scannedAll => exact hholds.unlisted hne
  | enlisted => exact hholds.taken party
  | counted => exact hholds.listed party
  | tallied => exact hholds.unlisted hne
  | left => exact hholds.taken party
  | gone => exact hholds.freed hne

end Locks

theorem Sound.locks (h : Sound machine)
    (hlocks : Locks machine.ring party machine.lock (machine.stages party) lock next) :
    Sound ({ machine with lock }.goto party next) := by
  have hown := hlocks.knows (h.knows party)
  have hothers := fun other (hne : other ≠ party) => hlocks.holds_of_ne hne (h.holds other)
  rcases hlocks.within with hwithin | ⟨hrange, hcursor, holders, hshared⟩
  · exact h.goto_within h.memory (fun other _ => h.knows other) hown hwithin hothers hlocks.holds
  · refine h.goto h.memory (fun other _ => h.knows other) hown (fun other _ => ⟨?_, ?_⟩) hothers
      hlocks.holds
    · exact ⟨by simp [hrange], fun cursor _ hnext => absurd hnext (hcursor cursor)⟩
    · refine ⟨by simp [hrange], fun cursor gate hnext _ => ?_⟩
      have hexclusive := (h.holds other).edits (by rw [hnext]; trivial)
      rw [hshared] at hexclusive
      cases hexclusive

/-! ## Writes -/

theorem Sound.grants (h : Sound machine) {id : Nat} {offer : Offer α} {start gate : Nat}
    (hstage : machine.stages (.caller id) = .swapping offer start gate)
    (hsame : machine.ring.claimed = start) :
    Sound ({ machine with
      ring := claimTo machine.ring (start + offer.length)
      granted := machine.granted ++ [offer.batch] }.goto (.caller id)
        (.filling start [] offer.batch)) := by
  subst hsame
  have hown := h.knows (.caller id)
  rw [hstage] at hown
  obtain ⟨hbelow, hroom⟩ := hown
  refine h.goto (h.memory.claimTo hbelow hroom) (fun other hne => ?_)
    ⟨pending_claimTo h.memory offer, nofun⟩ (fun other hne => ⟨?_, ?_⟩)
    (fun other _ => h.holds other) ⟨nofun, nofun⟩
  · refine (h.knows other).claimTo h.memory hroom fun cursor hcursor => ?_
    exact (h.agree other (.caller id) hne).ahead cursor gate hcursor (by rw [hstage]; rfl)
  · -- whatever was claimed before ends where this range starts
    refine ⟨fun range hrange range' hrange' => .inr ?_, nofun⟩
    cases hrange
    have hstop := ((h.knows other).pending hrange').length_le
    rwa [← h.memory.claimed] at hstop
  · refine ⟨fun range hrange range' hrange' => .inl ?_, fun _ _ _ => nofun⟩
    cases hrange'
    have hstop := ((h.knows other).pending hrange).length_le
    rwa [← h.memory.claimed] at hstop

theorem Sound.fills (h : Sound machine) {id start : Nat} {filled left : List α} {value : α}
    (hstage : machine.stages (.caller id) = .filling start filled (value :: left)) :
    Sound ({ machine with ring := write machine.ring (start + filled.length) value }.goto
      (.caller id) (.filling start (filled ++ [value]) left)) := by
  have hown := h.knows (.caller id)
  rw [hstage] at hown
  obtain ⟨hpending, hwritten⟩ := hown
  have hstop := hpending.length_le
  rw [← h.memory.claimed, List.length_append, List.length_cons] at hstop
  have hpublished : machine.ring.published ≤ start + filled.length :=
    Nat.le_trans hpending.unpublished (Nat.le_add_right _ _)
  have hclaimed : start + filled.length < machine.ring.claimed := by omega
  refine h.goto_within (h.memory.write hpublished hclaimed) (fun other hne => ?_) ⟨?_, ?_⟩
    ⟨.inr ?_, .inl rfl, nofun⟩ (fun other _ => h.holds other) ⟨nofun, nofun⟩
  · refine (h.knows other).write hpublished hclaimed h.memory fun range hrange => ?_
    have hapart := (h.agree other (.caller id) hne).apart range hrange
      (start, filled ++ value :: left) (by rw [hstage]; rfl)
    simp only [List.length_append, List.length_cons] at hapart
    omega
  · rwa [List.append_assoc]
  · intro i hi
    rw [List.length_append, List.length_singleton] at hi
    rcases Nat.lt_succ_iff_lt_or_eq.1 hi with hold | rfl
    · rw [List.getElem?_append_left hold, ← hwritten i hold]
      exact value?_write_of_pending hpublished hclaimed h.memory
        (Nat.le_trans hpending.unpublished (Nat.le_add_right _ _)) (by omega) (by omega)
    · rw [value?_write, List.getElem?_concat_length]
  · rw [hstage]
    simp [Stage.range?]

theorem Sound.publishes (h : Sound machine) {id start : Nat} {batch : List α}
    (hstage : machine.stages (.caller id) = .publishing start batch) :
    Sound ({ machine with ring := publishTo machine.ring (start + batch.length) }.goto
      (.caller id) (.resting (some (.published (.ok ()))))) := by
  have hown := h.knows (.caller id)
  rw [hstage] at hown
  obtain ⟨hpending, hwritten, hturn⟩ := hown
  refine h.goto_within (h.memory.publishTo hpending hturn hwritten) (fun other hne => ?_) trivial
    ⟨.inl rfl, .inl rfl, nofun⟩ (fun other _ => h.holds other) ⟨nofun, nofun⟩
  refine (h.knows other).publishTo hpending hturn fun range hrange => ?_
  exact ((h.agree other (.caller id) hne).apart range hrange (start, batch)
    (by rw [hstage]; rfl)).symm

theorem Sound.enrolls (h : Sound machine) {id cursor : Nat}
    (hstage : machine.stages (.caller id) = .enrolling cursor) :
    Sound ({ machine with ring := enroll machine.ring cursor }.goto (.caller id)
      (.enrolled machine.ring.registered)) := by
  have hown := h.knows (.caller id)
  rw [hstage] at hown
  have hlock := (h.holds (.caller id)).edits (by rw [hstage]; trivial)
  refine h.goto_within (h.memory.enroll hown.1 hown.2) (fun other hne => ?_) trivial
    ⟨.inl rfl, .inl rfl, nofun⟩ (fun other _ => h.holds other) ⟨nofun, fun _ => hlock⟩
  refine (h.knows other).enroll (fun hlists => ?_) fun gate hgate => ?_
  · obtain ⟨holders, hshared, -⟩ := (h.holds other).lists hlists
    rw [hshared] at hlock
    cases hlock
  · exact (h.agree (.caller id) other hne.symm).ahead cursor gate hstage hgate

theorem Sound.subscribes (h : Sound machine) {id : Nat} {consumer : ConsumerId}
    (hheld : machine.lock = .exclusive (.caller id)) :
    Sound (({ machine with lock := .shared [] }.goto (.caller id)
      (.resting (some (.registered consumer)))).goto (.consumer consumer) (.resting none)) := by
  have hreleased : Sound ({ machine with lock := .shared [] }.goto (.caller id)
      (.resting (some (.registered consumer)))) :=
    h.goto_within h.memory (fun other _ => h.knows other) trivial
      ⟨.inl rfl, .inl rfl, nofun⟩ (fun other hne => (hheld ▸ h.holds other).freed hne)
      ⟨nofun, nofun⟩
  exact hreleased.goto_within hreleased.memory (fun other _ => hreleased.knows other) trivial
    ⟨.inl rfl, .inl rfl, nofun⟩ (fun other _ => hreleased.holds other) ⟨nofun, nofun⟩

theorem Sound.moves (h : Sound machine) {id : ConsumerId} {number : Nat} {found : Option α}
    (hstage : machine.stages (.consumer id) = .moving number found) :
    Sound ({ machine with ring := moveTo machine.ring id (number + 1) }.goto
      (.consumer id) (.resting (some (.polled (told found))))) := by
  have hown := h.knows (.consumer id)
  rw [hstage] at hown
  obtain ⟨⟨_, hparty, hmem⟩, hlt, -⟩ := hown
  cases hparty
  exact h.goto_within (h.memory.moveTo hmem hlt)
    (fun other hne => (h.knows other).moveTo hne hmem) trivial ⟨.inl rfl, .inl rfl, nofun⟩
    (fun other _ => h.holds other) ⟨nofun, nofun⟩

theorem Sound.delists (h : Sound machine) {id : ConsumerId}
    (hstage : machine.stages (.consumer id) = .delisting) :
    Sound ({ machine with ring := machine.ring.unsubscribe id }.goto (.consumer id)
      .delisted) := by
  have hlock := (h.holds (.consumer id)).edits (by rw [hstage]; trivial)
  exact h.goto_within (h.memory.unsubscribe id)
    (fun other hne => (h.knows other).unsubscribe hne) trivial ⟨.inl rfl, .inl rfl, nofun⟩
    (fun other _ => h.holds other) ⟨nofun, fun _ => hlock⟩

/-! ## Runs -/

theorem sound_start (capacity : Nat) : Sound (.start capacity : Machine α) where
  memory := memory_start capacity
  knows party := by cases party <;> trivial
  agree one other hne := by
    cases one <;> cases other <;> exact ⟨nofun, nofun⟩
  holds party := by cases party <;> exact ⟨nofun, nofun⟩

theorem Sound.step (h : Sound machine) (hstep : Step machine after) : Sound after := by
  cases hstep with
  | looks hlooks => exact h.looks hlooks
  | locks hlocks => exact h.locks hlocks
  | granted hstage hsame => exact h.grants hstage hsame
  | filled hstage => exact h.fills hstage
  | published hstage => exact h.publishes hstage
  | enrolled hstage => exact h.enrolls hstage
  | subscribed _ hheld => exact h.subscribes hheld
  | closed =>
    exact h.goto_within h.memory.close (fun other _ => (h.knows other).close) trivial
      ⟨.inl rfl, .inl rfl, nofun⟩ (fun other _ => h.holds other) ⟨nofun, nofun⟩
  | moved hstage => exact h.moves hstage
  | delisted hstage => exact h.delists hstage

/-- **Whatever a ring comes to, every party can rely on what it knows.** -/
theorem Reachable.sound (h : Reachable capacity machine) : Sound machine := by
  induction h with
  | start => exact sound_start capacity
  | step _ hstep ih => exact ih.step hstep

end CommitLog.Queue.Contention
