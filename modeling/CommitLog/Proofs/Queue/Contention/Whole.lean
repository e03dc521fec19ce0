import CommitLog.Proofs.Queue.Contention.Run

/-!
# Operations of a ring as rows of steps

Where nobody gets in between, the steps of one party come to what the operations of `Ring` say in
one go: the ring is left as they leave it, and the party is told what they answer. So the machine
is about the same ring, and its steps do come about.
-/

namespace CommitLog.Queue.Contention

variable {α : Type} {ring : Ring α} {party : Party} {stage next : Stage α} {lock : Lock}
  {machine : Machine α} {offer : Offer α} {answer : Option (Answer α)} {id : Nat}
  {consumer : ConsumerId}

/-! ## Rows of steps -/

namespace Machine

@[simp]
theorem goto_goto (machine : Machine α) (party : Party) (stage next : Stage α) :
    (machine.goto party stage).goto party next = machine.goto party next := by
  simp [goto]

theorem stages_goto (machine : Machine α) (party : Party) (stage : Stage α) :
    (machine.goto party stage).stages party = stage := Function.update_self ..

theorem ring_goto (machine : Machine α) (party : Party) (stage : Stage α) :
    (machine.goto party stage).ring = machine.ring := rfl

end Machine

open Machine

/-- A party that writes to the ring goes on from where it was. -/
@[simp]
theorem goto_with (machine : Machine α) (ring : Ring α) (lock : Lock) (granted : List (List α))
    (party : Party) (stage next : Stage α) :
    ({ machine.goto party stage with ring, lock, granted } : Machine α).goto party next
      = { machine with ring, lock, granted }.goto party next := by
  simp [goto]

theorem leads_looks (h : Looks machine.ring party stage next) :
    Leads (machine.goto party stage) (machine.goto party next) := by
  have hstep : Step (machine.goto party stage) ((machine.goto party stage).goto party next) :=
    .looks (by rw [stages_goto]; exact h)
  rw [goto_goto] at hstep
  exact .single hstep

theorem leads_locks (h : Locks machine.ring party machine.lock stage lock next) :
    Leads (machine.goto party stage) ({ machine with lock }.goto party next) := by
  have hstep : Step (machine.goto party stage)
      ({ machine.goto party stage with lock }.goto party next) :=
    .locks (by rw [stages_goto]; exact h)
  rw [goto_with] at hstep
  exact .single hstep

/-! ## Looking at all cursors -/

theorem leads_scanning (machine : Machine α) {start gate : Nat} {left : List (ConsumerId × Nat)}
    (h : ∀ entry ∈ left, machine.ring.cursors.lookup entry.1 = some entry.2) :
    Leads (machine.goto (.caller id) (.scanning offer start gate (left.map Prod.fst)))
      (machine.goto (.caller id)
        (.scanning offer start ((left.map Prod.snd).foldl min gate) [])) := by
  induction left generalizing gate with
  | nil => exact .refl
  | cons entry rest ih =>
    exact (leads_looks (.scanned (h entry List.mem_cons_self))).trans
      (ih fun other hmem => h other (List.mem_cons_of_mem _ hmem))

/-! ## Filling all slots -/

theorem size_fill_pos (ring : Ring α) (number : Nat) (values : List α) :
    0 < (Ring.fill ring.slots number values).size := by
  rw [Ring.size_fill]
  exact ring.slots_pos

/-- A ring with values in the slots from a number on. -/
def fillFrom (ring : Ring α) (number : Nat) (values : List α) : Ring α :=
  { ring with
    slots := Ring.fill ring.slots number values
    slots_pos := size_fill_pos ring number values }

theorem leads_filling (machine : Machine α) (id start : Nat) (filled left : List α) :
    Leads (machine.goto (.caller id) (.filling start filled left))
      ({ machine with ring := fillFrom machine.ring (start + filled.length) left }.goto (.caller id)
        (.filling start (filled ++ left) [])) := by
  induction left generalizing machine filled with
  | nil =>
    rw [List.append_nil]
    exact .refl
  | cons value later ih =>
    have hstep := Step.filled (stages_goto machine (.caller id)
      (.filling start filled (value :: later)))
    have hrest := ih { machine with ring := write machine.ring (start + filled.length) value }
      (filled ++ [value])
    rw [List.append_assoc, List.length_append] at hrest
    rw [goto_with] at hstep
    exact .head hstep hrest

/-- A range whose turn it is is filled and published. -/
theorem leads_published (machine : Machine α) {start : Nat} {batch : List α}
    (hturn : machine.ring.published = start) :
    Leads (machine.goto (.caller id) (.filling start [] batch))
      ({ machine with
        ring := publishTo (fillFrom machine.ring start batch) (start + batch.length) }.goto
          (.caller id) (.resting (some (.published (.ok ()))))) := by
  let filled : Machine α := { machine with ring := fillFrom machine.ring start batch }
  have hfilled : Leads _ (filled.goto (.caller id) (.filling start batch [])) :=
    leads_filling machine id start [] batch
  have hlooked : Leads (filled.goto (.caller id) (.filling start batch []))
      (filled.goto (.caller id) (.publishing start batch)) :=
    (leads_looks .filledAll).trans (leads_looks (.foundTurn hturn))
  have hpublished := Step.published (stages_goto filled (.caller id) (.publishing start batch))
  rw [goto_with] at hpublished
  exact (hfilled.trans hlooked).tail hpublished

/-! ## Publishing -/

/-- Nobody is at the list of cursors, or between claiming a range and publishing it. -/
structure Quiet (machine : Machine α) : Prop where
  sound : Sound machine
  unlocked : machine.lock = .shared []
  settled : machine.ring.claimed = machine.ring.published

/-- Where an attempt to claim a range leaves the machine. -/
def Machine.attempted (machine : Machine α) (id : Nat) (offer : Offer α) :
    Except Error (Nat × Ring α) → Machine α
  | .ok (start, claimed) =>
    { machine with
      ring := claimed.fillAndPublish start offer.batch
      granted := machine.granted ++ [offer.batch] }.goto (.caller id)
        (.resting (some (.published (.ok ()))))
  | .error .full => machine.goto (.caller id) offer.whenFull
  | .error reason =>
    machine.goto (.caller id) (.resting (some (.published (.error ⟨reason, offer.batch⟩))))

namespace Quiet

/-- The gate that a producer computes access by access is that of the ring. -/
theorem leads_weighing (h : Quiet machine) (hopen : machine.ring.closed = false) :
    Leads (machine.goto (.caller id) (.entering offer))
      (machine.goto (.caller id) (.weighing offer machine.ring.claimed machine.ring.gate)) := by
  obtain ⟨ring, lock, stages, granted⟩ := machine
  obtain rfl : lock = .shared [] := h.unlocked
  refine (leads_looks (.foundOpen hopen)).trans ?_
  refine (leads_looks .reserved).trans ?_
  refine (leads_looks .gated).trans ?_
  refine (leads_locks .listed).trans ?_
  refine (leads_scanning ⟨ring, .shared [.caller id], stages, granted⟩
    fun entry => lookup_of_mem h.sound.memory.distinct).trans ?_
  have hscanned : Leads (Machine.goto ⟨ring, .shared [.caller id], stages, granted⟩ (.caller id)
      (.scanning offer ring.claimed ring.gate [])) _ := leads_locks .scannedAll
  rwa [List.erase_cons_head] at hscanned

/-- A range that is granted is filled and published. -/
theorem leads_granted (h : Quiet machine) {gate : Nat} :
    Leads (machine.goto (.caller id) (.swapping offer machine.ring.claimed gate))
      (machine.attempted id offer (.ok (machine.ring.claimed,
        { machine.ring with claimed := machine.ring.claimed + offer.length }))) := by
  let claimed : Machine α := { machine with
    ring := claimTo machine.ring (machine.ring.claimed + offer.length)
    granted := machine.granted ++ [offer.batch] }
  have hgranted := Step.granted (stages_goto machine (.caller id)
    (.swapping offer machine.ring.claimed gate)) rfl
  rw [goto_with] at hgranted
  exact .head hgranted (leads_published claimed h.settled.symm)

/-- **An attempt to claim a range comes to what the ring's own claim says.** -/
theorem leads_attempted (h : Quiet machine) :
    Leads (machine.goto (.caller id) (.entering offer))
      (machine.attempted id offer (machine.ring.claim offer.length)) := by
  have hgate : machine.ring.gate ≤ machine.ring.claimed + offer.length := by
    have hle := (Ring.gate_le machine.ring).1
    have hsettled := h.settled
    omega
  unfold Ring.claim
  split
  next hclosed => exact leads_looks (.foundClosed hclosed)
  next hopen =>
    refine (h.leads_weighing (by simpa using hopen)).trans ?_
    split
    next hfull => exact leads_looks (.foundFull hgate hfull)
    next hroom =>
      exact (leads_looks (.foundRoom hgate (Nat.le_of_not_lt hroom))).trans h.leads_granted

end Quiet

/-- What the ring's own publication of a batch comes to. -/
def offered (ring : Ring α) (offer : Offer α) : Progress α × Ring α :=
  if offer.waits then ring.publish offer.batch
  else
    match ring.tryPublish offer.batch with
    | .ok published => (.published, published)
    | .error rejected => (.rejected rejected, ring)

/-- Where a producer is that was told so. -/
def Offer.after (offer : Offer α) : Progress α → Stage α
  | .published => .resting (some (.published (.ok ())))
  | .rejected rejected => .resting (some (.published (.error rejected)))
  | .waiting _ => .entering offer

theorem attempted_claim (machine : Machine α) (id : Nat) (offer : Offer α)
    (h : machine.ring.refusal? offer.length = none) : ∃ granted,
    machine.attempted id offer (machine.ring.claim offer.length)
      = { machine with ring := (offered machine.ring offer).2, granted }.goto (.caller id)
          (offer.after (offered machine.ring offer).1) := by
  have hbatch : offer.batch.isEmpty = false := by simpa using offer.batch_ne
  unfold Offer.length at *
  unfold offered Ring.publish Ring.tryPublish Ring.resume
  simp only [hbatch, Bool.false_eq_true, if_false, h]
  cases machine.ring.claim offer.batch.length with
  | ok claimed =>
    refine ⟨machine.granted ++ [offer.batch], ?_⟩
    cases offer.waits <;> rfl
  | error reason =>
    refine ⟨machine.granted, ?_⟩
    -- only a ring without room makes a difference to a producer that waits
    cases reason <;> cases hwaits : offer.waits <;>
      simp [attempted, Offer.after, Offer.whenFull, hwaits]

/-- **A publication that nobody gets in the way of is that of the ring.** -/
theorem leads_offered (h : Quiet machine) (id : Nat)
    (hrest : machine.stages (.caller id) = .resting answer) (offer : Offer α) : ∃ granted,
    Leads machine ({ machine with ring := (offered machine.ring offer).2, granted }.goto
      (.caller id) (offer.after (offered machine.ring offer).1)) := by
  have hoffered : Leads machine (machine.goto (.caller id) (.checking offer)) :=
    .single (.looks (by rw [hrest]; exact .offered offer))
  cases hrefusal : machine.ring.refusal? offer.length with
  | none =>
    obtain ⟨granted, hattempted⟩ := attempted_claim machine id offer hrefusal
    refine ⟨granted, hoffered.trans ((leads_looks (.admitted hrefusal)).trans ?_)⟩
    rw [← hattempted]
    exact h.leads_attempted
  | some reason =>
    have hbatch : offer.batch.isEmpty = false := by simpa using offer.batch_ne
    have hresult : offered machine.ring offer
        = (.rejected ⟨reason, offer.batch⟩, machine.ring) := by
      unfold offered Ring.publish Ring.tryPublish
      unfold Offer.length at hrefusal
      simp [hbatch, hrefusal]
    refine ⟨machine.granted, hoffered.trans ?_⟩
    rw [hresult]
    exact leads_looks (.refused hrefusal)

/-- Nothing is published of a batch without values. -/
theorem leads_offeredNothing (id : Nat) (hrest : machine.stages (.caller id) = .resting answer) :
    machine.ring.tryPublish [] = .ok machine.ring ∧ Leads machine
      (machine.goto (.caller id) (.resting (some (.published (.ok ()))))) :=
  ⟨rfl, .single (.looks (by rw [hrest]; exact .offeredNothing))⟩

/-! ## The other operations of the queue -/

theorem leads_subscribe (id : Nat) (hunlocked : machine.lock = .shared [])
    (hrest : machine.stages (.caller id) = .resting answer) :
    Leads machine (({ machine with ring := machine.ring.subscribe.2 }.goto (.caller id)
      (.resting (some (.registered machine.ring.subscribe.1)))).goto
        (.consumer machine.ring.subscribe.1) (.resting none)) := by
  obtain ⟨ring, lock, stages, granted⟩ := machine
  obtain rfl : lock = .shared [] := hunlocked
  let held : Machine α := ⟨ring, .exclusive (.caller id), stages, granted⟩
  have hobserving : Leads _ (held.goto (.caller id) .observing) :=
    (Relation.ReflTransGen.single (.looks (by rw [hrest]; exact .subscribes))).trans
      (leads_locks .enlisted)
  have henrolling : Leads _ (held.goto (.caller id) (.enrolling ring.published)) :=
    hobserving.trans (leads_looks .observed)
  have henrolled := Step.enrolled (stages_goto held (.caller id) (.enrolling ring.published))
  rw [goto_with] at henrolled
  have hsubscribed := Step.subscribed (stages_goto { held with ring := enroll ring ring.published }
    (.caller id) (.enrolled ring.registered)) rfl
  rw [goto_with] at hsubscribed
  exact (henrolling.tail henrolled).tail hsubscribed

theorem leads_unsubscribe (hunlocked : machine.lock = .shared [])
    (hrest : machine.stages (.consumer consumer) = .resting answer) :
    Leads machine ({ machine with ring := machine.ring.unsubscribe consumer }.goto
      (.consumer consumer) .absent) := by
  obtain ⟨ring, lock, stages, granted⟩ := machine
  obtain rfl : lock = .shared [] := hunlocked
  let held : Machine α := ⟨ring, .exclusive (.consumer consumer), stages, granted⟩
  have hdelisting : Leads _ (held.goto (.consumer consumer) .delisting) :=
    (Relation.ReflTransGen.single (.looks (by rw [hrest]; exact .leaves))).trans
      (leads_locks .left)
  have hdelisted := Step.delisted (stages_goto held (.consumer consumer) .delisting)
  rw [goto_with] at hdelisted
  have hgone : Leads (({ held with ring := ring.unsubscribe consumer } : Machine α).goto
      (.consumer consumer) .delisted) _ := leads_locks .gone
  exact (hdelisting.tail hdelisted).trans hgone

theorem leads_close (id : Nat) (hrest : machine.stages (.caller id) = .resting answer) :
    Leads machine ({ machine with ring := machine.ring.close }.goto (.caller id)
      (.resting (some .closed))) := by
  have hclosing : Leads machine (machine.goto (.caller id) .closing) :=
    .single (.looks (by rw [hrest]; exact .closes))
  have hclosed := Step.closed (stages_goto machine (.caller id) .closing)
  rw [goto_with] at hclosed
  exact hclosing.tail hclosed

theorem leads_isClosed (id : Nat) (hrest : machine.stages (.caller id) = .resting answer) :
    Leads machine (machine.goto (.caller id)
      (.resting (some (.isClosed machine.ring.closed)))) :=
  (Relation.ReflTransGen.single (.looks (by rw [hrest]; exact .inquires))).trans
    (leads_looks .inquired)

theorem leads_consumerCount (id : Nat) (hunlocked : machine.lock = .shared [])
    (hrest : machine.stages (.caller id) = .resting answer) :
    Leads machine (machine.goto (.caller id)
      (.resting (some (.counted machine.ring.consumerCount)))) := by
  obtain ⟨ring, lock, stages, granted⟩ := machine
  obtain rfl : lock = .shared [] := hunlocked
  let held : Machine α := ⟨ring, .shared [.caller id], stages, granted⟩
  have hcounting : Leads _ (held.goto (.caller id) .tallying) :=
    (Relation.ReflTransGen.single (.looks (by rw [hrest]; exact .counts))).trans
      (leads_locks .counted)
  have htallied : Leads (held.goto (.caller id) .tallying) _ := leads_locks .tallied
  rw [List.erase_cons_head] at htallied
  exact hcounting.trans htallied

/-! ## Polling -/

theorem storeCursor_of_lookup {cursors : List (ConsumerId × Nat)} {cursor : Nat}
    (h : cursors.lookup consumer = some cursor) :
    storeCursor consumer (cursor + 1) cursors = Ring.advanceCursor consumer cursors := by
  induction cursors with
  | nil => rfl
  | cons head rest ih =>
    obtain ⟨first, old⟩ := head
    unfold storeCursor Ring.advanceCursor
    by_cases hfirst : first = consumer
    · rw [if_pos hfirst, if_pos hfirst]
      rw [List.lookup_cons, hfirst, beq_self_eq_true] at h
      rw [Option.some.inj h]
    · have hdiffer : (consumer == first) = false := by simpa using Ne.symm hfirst
      rw [List.lookup_cons, hdiffer] at h
      rw [if_neg hfirst, if_neg hfirst, ih h]

theorem moveTo_of_lookup {cursor : Nat} (h : ring.cursors.lookup consumer = some cursor) :
    moveTo ring consumer (cursor + 1)
      = { ring with cursors := Ring.advanceCursor consumer ring.cursors } := by
  rw [moveTo, storeCursor_of_lookup h]

/-- **A poll that nobody gets in the way of is that of the ring.** -/
theorem leads_next {cursor : Nat} (hcursor : machine.ring.cursors.lookup consumer = some cursor)
    (hrest : machine.stages (.consumer consumer) = .resting answer) :
    Leads machine ({ machine with ring := (machine.ring.next consumer).2 }.goto
      (.consumer consumer) (.resting (some (.polled (machine.ring.next consumer).1)))) := by
  have hpolls : Leads machine (machine.goto (.consumer consumer) .polling) :=
    .single (.looks (by rw [hrest]; exact .polls))
  have hcomparing := hpolls.trans (leads_looks (.loaded hcursor))
  unfold Ring.next
  simp only [hcursor]
  split
  next hle =>
    exact (hcomparing.trans (leads_looks (.foundNothing hle))).trans (leads_looks .ended)
  next hlt =>
    have hcopied := (hcomparing.trans (leads_looks (.foundValue (Nat.lt_of_not_le hlt)))).trans
      (leads_looks .copied)
    have hmoved := Step.moved (stages_goto machine (.consumer consumer)
      (.moving cursor (machine.ring.value? cursor)))
    rw [goto_with, ring_goto, moveTo_of_lookup hcursor] at hmoved
    cases hvalue : machine.ring.value? cursor <;> rw [hvalue] at hcopied hmoved <;>
      exact hcopied.tail hmoved

end CommitLog.Queue.Contention
