import CommitLog.Proofs.Queue.Blocking.Others

/-!
# All or nothing

Whatever happens in the middle of a publication, what a consumer is given and what is still in
front of it make up what it had when the publication began, followed by the batch if the batch has
come to it (`Kept`). A batch that is accepted has come to everybody; one that is refused comes to
nobody and goes back to its producer.

There are two ways out. A publication that gives up at a full mailbox leaves the batch in the
mailboxes before it and hands nothing back; and a consumer of a ring that is closed while the batch
is on its way is told that nothing more will come, and it comes all the same.
-/

namespace CommitLog.Queue

/-- Whether a queue is a ring. -/
def isRing {α : Type} : Queue α → Bool
  | ring _ => true
  | mailboxes _ => false

end CommitLog.Queue

namespace CommitLog.Queue.Blocking

variable {α : Type} {start : Queue α} {machine after : Machine α} {batch : List α}
  {consumer : ConsumerId}

namespace Machine

/-- What a consumer has had and will have: what waited for it at the start, and the batch if it has
come to it. -/
def row (start : Queue α) (machine : Machine α) (consumer : ConsumerId) : List α :=
  start.unread consumer ++ due machine.batch machine.served consumer

/-- The machine after a consumer has polled. -/
def poll (machine : Machine α) (consumer : ConsumerId) : Machine α :=
  { machine with
    queue := (machine.queue.next consumer).2
    told := Function.update machine.told consumer
      (machine.told consumer ++ [(machine.queue.next consumer).1])
    hasty := if (machine.queue.next consumer).1.isClosed && machine.stage.underway then
      machine.hasty ++ [consumer] else machine.hasty }

theorem told_poll_self (machine : Machine α) (consumer : ConsumerId) :
    (machine.poll consumer).told consumer
      = machine.told consumer ++ [(machine.queue.next consumer).1] :=
  Function.update_self ..

theorem told_poll_of_ne {other : ConsumerId} (h : other ≠ consumer) :
    (machine.poll consumer).told other = machine.told other :=
  Function.update_of_ne h ..

theorem mem_hasty_poll {other : ConsumerId} (consumer : ConsumerId) (h : other ∈ machine.hasty) :
    other ∈ (machine.poll consumer).hasty := by
  unfold poll
  dsimp only
  split
  · exact List.mem_append_left _ h
  · exact h

theorem self_mem_hasty_poll (hpoll : (machine.queue.next consumer).1 = .closed)
    (hunderway : machine.stage.underway = true) : consumer ∈ (machine.poll consumer).hasty := by
  unfold poll
  dsimp only
  rw [hpoll, hunderway]
  exact List.mem_append_right _ List.mem_cons_self

end Machine

/-- What holds at every stage of a publication that found the queue as it was at the start. -/
structure Kept (start : Queue α) (machine : Machine α) : Prop where
  fits : Fits machine.batch start machine.queue machine.stage machine.served
  /-- Nothing is lost, and nothing comes twice. -/
  row : ∀ consumer, machine.queue.IsConsumer consumer →
    values (machine.told consumer) ++ machine.queue.unread consumer = machine.row start consumer
  given : ∀ consumer, values (machine.told consumer) <+: machine.row start consumer
  /-- Whoever was told that nothing more will come has had its row, or was hasty. -/
  closed : ∀ consumer front back, machine.told consumer = front ++ .closed :: back →
    consumer ∈ machine.hasty ∨
      Over machine.queue machine.stage consumer ∧ values front = machine.row start consumer
  known : ∀ consumer, start.IsConsumer consumer → consumer < machine.queue.subscribe.1
  fresh : ∀ consumer, machine.queue.subscribe.1 ≤ consumer →
    machine.told consumer = [] ∧ consumer ∉ machine.served

theorem kept_start (h : start.Sound) (hidle : start.isBusy = false) (batch : List α) :
    Kept start { queue := start, batch } where
  fits := fits_start h hidle batch
  row consumer _ := by simp [Machine.row, due, values]
  given consumer := List.nil_prefix
  closed consumer front back htold := by simp at htold
  known consumer := (fits_start h hidle batch).lt
  fresh consumer _ := ⟨rfl, List.not_mem_nil⟩

theorem due_prefix {served served' : List ConsumerId} (h : served ⊆ served') (batch : List α)
    (consumer : ConsumerId) : due batch served consumer <+: due batch served' consumer := by
  by_cases hmem : consumer ∈ served
  · have hsame : due batch served' consumer = due batch served consumer := by
      rw [due_of_mem hmem, due_of_mem (h hmem)]
    exact hsame ▸ List.prefix_rfl
  · rw [due_of_not_mem hmem]
    exact List.nil_prefix

/-! ## One step -/

theorem Kept.publishes (h : Kept start machine) {queue : Queue α} {stage : Stage α}
    {served : List ConsumerId}
    (hpublishes : Publishes machine.batch machine.queue machine.stage machine.served
      queue stage served) : Kept start { machine with queue, stage, served } := by
  obtain ⟨hfits, hbrings⟩ := h.fits.publishes hpublishes
  refine ⟨hfits, fun consumer hconsumer => ?_, fun consumer => ?_,
    fun consumer front back htold => ?_, fun consumer hstart => ?_, fun consumer hle => ?_⟩
  · have hwas := (hbrings.isConsumer consumer).1 hconsumer
    obtain ⟨more, hunread, hdue⟩ := hbrings.unread consumer hwas
    have hrow := h.row consumer hwas
    show values (machine.told consumer) ++ queue.unread consumer
      = start.unread consumer ++ due machine.batch served consumer
    rw [hunread, hdue, ← List.append_assoc, ← List.append_assoc, hrow, Machine.row]
  · obtain ⟨rest, hrest⟩ := due_prefix hbrings.subset machine.batch consumer
    refine (h.given consumer).trans ⟨rest, ?_⟩
    rw [Machine.row, List.append_assoc, hrest, Machine.row]
  · refine (h.closed consumer front back htold).imp_right fun ⟨hover, hvalues⟩ => ?_
    obtain ⟨hover, hdue⟩ := hbrings.late consumer hover
    refine ⟨hover, hvalues.trans ?_⟩
    rw [Machine.row, Machine.row, hdue]
  · rw [hbrings.name]
    exact h.known consumer hstart
  · rw [hbrings.name] at hle
    obtain ⟨htold, hserved⟩ := h.fresh consumer hle
    refine ⟨htold, fun hmem => ?_⟩
    rcases hbrings.known consumer hmem with hmem | hlt
    · exact hserved hmem
    · exact absurd hle (Nat.not_le.2 hlt)

/-- Somebody does something that changes nothing for those who stay. -/
theorem Kept.same (h : Kept start machine) {queue : Queue α}
    (hfits : Fits machine.batch start queue machine.stage machine.served)
    (hsame : ∀ consumer, queue.IsConsumer consumer → machine.queue.Same queue consumer ∨
      values (machine.told consumer) ++ queue.unread consumer = machine.row start consumer)
    (hover : ∀ consumer, consumer < machine.queue.subscribe.1 →
      Over machine.queue machine.stage consumer → Over queue machine.stage consumer)
    (hname : machine.queue.subscribe.1 ≤ queue.subscribe.1) :
    Kept start { machine with queue } := by
  refine ⟨hfits, fun consumer hconsumer => ?_, h.given, fun consumer front back htold => ?_,
    fun consumer hstart => Nat.lt_of_lt_of_le (h.known consumer hstart) hname,
    fun consumer hle => h.fresh consumer (Nat.le_trans hname hle)⟩
  · rcases hsame consumer hconsumer with hsame | hrow
    · show values (machine.told consumer) ++ queue.unread consumer = machine.row start consumer
      rw [hsame.unread]
      exact h.row consumer (hsame.isConsumer.1 hconsumer)
    · exact hrow
  · have hlt : consumer < machine.queue.subscribe.1 := by
      by_contra hle
      rw [(h.fresh consumer (Nat.le_of_not_lt hle)).1] at htold
      simp at htold
    exact (h.closed consumer front back htold).imp_right (.imp_left (hover consumer hlt))

/-- Something stands in a row with one more item: in front of the last item, or as the last. -/
theorem eq_concat_cases {β : Type} {items front back : List β} {last item : β}
    (h : items ++ [last] = front ++ item :: back) :
    items = front ∧ last = item ∨ ∃ rest, items = front ++ item :: rest := by
  rcases List.eq_nil_or_concat back with rfl | ⟨rest, other, rfl⟩
  · exact .inl (List.append_inj' h rfl |>.imp_right List.singleton_inj.1)
  · rw [List.concat_eq_append, ← List.cons_append, ← List.append_assoc] at h
    exact .inr ⟨rest, (List.append_inj' h rfl).1⟩

/-- A consumer that is told that nothing more will come has had its row, unless the batch is on its
way into a ring. -/
theorem Kept.told_closed (h : Kept start machine) (hconsumer : machine.queue.IsConsumer consumer)
    (hpoll : (machine.queue.next consumer).1 = .closed) :
    machine.stage.underway = true ∨ Over machine.queue machine.stage consumer ∧
      values (machine.told consumer) = machine.row start consumer := by
  rcases h.fits.next_cases hconsumer with ⟨_, _, hnext, -⟩ | ⟨poll, hnext, -, hunread, hcause⟩
  · rw [hnext] at hpoll
    cases hpoll
  · rw [hnext] at hpoll
    obtain rfl : poll = .closed := hpoll
    have hrow := h.row consumer hconsumer
    rw [hunread, List.append_nil] at hrow
    exact (hcause rfl).imp_right fun hover => ⟨hover, hrow⟩

/-- What a consumer has had and what is in front of it are the same after it polls: a value that it
is given was in front of it. -/
theorem Kept.row_poll (h : Kept start machine) (hconsumer : machine.queue.IsConsumer consumer) :
    values ((machine.poll consumer).told consumer) ++ (machine.poll consumer).queue.unread consumer
      = machine.row start consumer := by
  have hrow := h.row consumer hconsumer
  rw [Machine.told_poll_self, ← hrow, values_append, List.append_assoc]
  refine congrArg (values (machine.told consumer) ++ ·) ?_
  show values [(machine.queue.next consumer).1] ++ (machine.queue.next consumer).2.unread consumer
    = machine.queue.unread consumer
  rcases h.fits.next_cases hconsumer with
    ⟨value, after, hnext, hunread⟩ | ⟨poll, hnext, hvalue, hunread, -⟩
  · rw [hunread, hnext]
    rfl
  · rw [hnext]
    simp [values, hvalue]

/-- Whoever is told that nothing more will come, now or before, has had its row, or is hasty. -/
theorem Kept.closed_poll (h : Kept start machine) (hconsumer : machine.queue.IsConsumer consumer)
    {other : ConsumerId} {front back : List (Poll α)}
    (htold : (machine.poll consumer).told other = front ++ .closed :: back) :
    other ∈ (machine.poll consumer).hasty ∨
      Over (machine.poll consumer).queue machine.stage other ∧
        values front = machine.row start other := by
  have hbefore : ∀ back, machine.told other = front ++ .closed :: back →
      other ∈ (machine.poll consumer).hasty ∨
        Over (machine.poll consumer).queue machine.stage other ∧
          values front = machine.row start other := fun back hwas =>
    (h.closed other front back hwas).imp (Machine.mem_hasty_poll consumer)
      (.imp_left (Over.next · consumer))
  by_cases hsame : other = consumer
  · subst hsame
    rw [Machine.told_poll_self] at htold
    rcases eq_concat_cases htold with ⟨rfl, hpoll⟩ | ⟨rest, hwas⟩
    · exact (h.told_closed hconsumer hpoll).imp (Machine.self_mem_hasty_poll hpoll)
        (.imp_left (Over.next · other))
    · exact hbefore rest hwas
  · rw [Machine.told_poll_of_ne hsame] at htold
    exact hbefore back htold

theorem Kept.poll (h : Kept start machine) (hconsumer : machine.queue.IsConsumer consumer) :
    Kept start (machine.poll consumer) := by
  have hname : (machine.poll consumer).queue.subscribe.1 = machine.queue.subscribe.1 :=
    name_next machine.queue consumer
  refine ⟨h.fits.next consumer, fun other hthere => ?_, fun other => ?_,
    fun other front back htold => h.closed_poll hconsumer htold,
    fun other hstart => hname ▸ h.known other hstart, fun other hle => ?_⟩
  · show _ = machine.row start other
    by_cases hsame : other = consumer
    · subst hsame
      exact h.row_poll hconsumer
    · rw [Machine.told_poll_of_ne hsame]
      exact (congrArg _ (same_next machine.queue (Ne.symm hsame)).unread).trans
        (h.row other ((isConsumer_next machine.queue other consumer).1 hthere))
  · show _ <+: machine.row start other
    by_cases hsame : other = consumer
    · subst hsame
      exact ⟨_, h.row_poll hconsumer⟩
    · rw [Machine.told_poll_of_ne hsame]
      exact h.given other
  · rw [hname] at hle
    have hne : other ≠ consumer := fun hsame =>
      Nat.not_le.2 (h.fits.lt hconsumer) (hsame ▸ hle)
    obtain ⟨hnothing, hserved⟩ := h.fresh other hle
    exact ⟨(Machine.told_poll_of_ne hne).trans hnothing, hserved⟩

/-- **Every step keeps what holds of the publication.** -/
theorem Kept.step (h : Kept start machine) (hstep : Step machine after) : Kept start after := by
  cases hstep with
  | publishes hpublishes => exact h.publishes hpublishes
  | polls hconsumer => exact h.poll hconsumer
  | drops consumer =>
    refine h.same (h.fits.unsubscribe consumer) (fun other hthere => ?_)
      (fun _ _ hover => hover.unsubscribe consumer) (by cases machine.queue <;> exact Nat.le_refl _)
    refine .inl (same_unsubscribe machine.queue fun hsame => ?_)
    exact not_isConsumer_unsubscribe machine.queue consumer (hsame ▸ hthere)
  | subscribes hidle =>
    refine h.same (h.fits.subscribe hidle h.known) (fun other hthere => ?_)
      (fun _ hlt hover => hover.subscribe hlt) ?_
    · by_cases hnew : other = machine.queue.subscribe.1
      · -- nothing waits for somebody who has just come
        subst hnew
        have hnobody : ¬machine.queue.IsConsumer machine.queue.subscribe.1 := fun hthere =>
          Nat.lt_irrefl _ (h.fits.lt hthere)
        have hstranger : ¬start.IsConsumer machine.queue.subscribe.1 := fun hstart =>
          Nat.lt_irrefl _ (h.known _ hstart)
        obtain ⟨htold, hserved⟩ := h.fresh _ (Nat.le_refl _)
        refine .inr ?_
        rw [htold, unread_subscribe hnobody, Machine.row, unread_of_not_isConsumer hstranger,
          due_of_not_mem hserved]
        rfl
      · exact .inl (same_subscribe machine.queue hnew)
    · cases machine.queue <;> exact Nat.le_succ _
  | stops =>
    exact h.same h.fits.stop (fun other _ => .inl (same_stop machine.queue other))
      (fun _ _ hover => hover.stop) (by cases machine.queue <;> exact Nat.le_refl _)
  | disconnects hclosed hidle =>
    exact h.same (h.fits.disconnect hclosed hidle)
      (fun other _ => .inl (same_disconnect machine.queue other)) (fun _ _ hover => hover.disconnect)
      (by cases machine.queue <;> exact Nat.le_refl _)

theorem Kept.leads (h : Kept start machine) (hleads : Leads machine after) : Kept start after := by
  induction hleads with
  | refl => exact h
  | tail _ hstep ih => exact ih.step hstep

/-! ## The end of a publication -/

/-- A publication that is refused comes to nobody and hands the batch back. One that is accepted
comes to everybody who was there at the start and still is, and only then is it told that nothing
more will come. -/
def AllOrNothing (start : Queue α) (machine : Machine α) : Except (Rejected α) Unit → Prop
  | .error rejected => rejected.batch = machine.batch ∧ ∀ consumer,
      values (machine.told consumer) <+: start.unread consumer ∧
        (machine.queue.IsConsumer consumer →
          values (machine.told consumer) ++ machine.queue.unread consumer = start.unread consumer)
  | .ok () => ∀ consumer, start.IsConsumer consumer → machine.queue.IsConsumer consumer →
      values (machine.told consumer) ++ machine.queue.unread consumer
          = start.unread consumer ++ machine.batch ∧
        ∀ front back, machine.told consumer = front ++ .closed :: back →
          values front = start.unread consumer ++ machine.batch

/-- What a refused publication hands back: the batch, which has come to nobody, or nothing if it
has given up at a full mailbox. -/
theorem Fits.of_error {queue : Queue α} {served : List ConsumerId} {rejected : Rejected α}
    (h : Fits batch start queue (.returned (.error rejected)) served) :
    rejected.batch = batch ∧ served = [] ∨
      rejected = ⟨.closed, []⟩ ∧ queue.isRing = false := by
  cases queue with
  | ring r =>
    obtain ⟨-, hat⟩ := h
    cases hat with
    | refused => exact .inl ⟨rfl, rfl⟩
  | mailboxes boxes =>
    obtain ⟨-, hat⟩ := h
    cases hat with
    | refused => exact .inl ⟨rfl, rfl⟩
    | brokenOff => exact .inr ⟨rfl, rfl⟩

/-- Whoever was there at the start, and still is, has been served when the batch is accepted. -/
theorem Fits.of_ok {queue : Queue α} {served : List ConsumerId}
    (h : Fits batch start queue (.returned (.ok ())) served) (hstart : start.IsConsumer consumer)
    (hstill : queue.IsConsumer consumer) : due batch served consumer = batch := by
  have hdue : batch = [] ∨ consumer ∈ served → due batch served consumer = batch := fun hcases => by
    rcases hcases with rfl | hmem
    · exact ite_self _
    · exact due_of_mem hmem
  cases queue with
  | ring r =>
    obtain ⟨-, hat⟩ := h
    cases hat with
    | accepted _ hall => exact hdue (hall.imp_right fun hall => hall consumer hstart hstill)
  | mailboxes boxes =>
    obtain ⟨-, hat⟩ := h
    cases hat with
    | accepted _ hall => exact hdue (hall.imp_right fun hall => hall consumer hstart hstill)

/-- Only a ring takes a batch in when nobody can get it back. -/
theorem Fits.isRing_of_underway {queue : Queue α} {stage : Stage α} {served : List ConsumerId}
    (h : Fits batch start queue stage served) (hunderway : stage.underway = true) :
    queue.isRing = true := by
  cases queue with
  | ring r => rfl
  | mailboxes boxes =>
    obtain ⟨-, hat⟩ := h
    cases hat <;> cases hunderway

theorem Publishes.isRing {queue queue' : Queue α} {stage stage' : Stage α}
    {served served' : List ConsumerId}
    (h : Publishes batch queue stage served queue' stage' served') :
    queue'.isRing = queue.isRing := by
  cases h <;> rfl

theorem isRing_of_leads (hleads : Leads { queue := start, batch } machine) :
    machine.queue.isRing = start.isRing := by
  induction hleads with
  | refl => rfl
  | @tail machine _ _ hstep ih =>
    rw [← ih]
    cases hstep with
    | publishes hpublishes => exact hpublishes.isRing
    | _ => cases machine.queue <;> rfl

/-- Nobody is hasty with mailboxes. -/
theorem hasty_of_leads (hsound : start.Sound) (hidle : start.isBusy = false)
    (hleads : Leads { queue := start, batch } machine) (hring : start.isRing = false) :
    machine.hasty = [] := by
  induction hleads with
  | refl => rfl
  | @tail machine _ hleads hstep ih =>
    have hfits := ((kept_start hsound hidle batch).leads hleads).fits
    have hunderway : machine.stage.underway = false := by
      by_contra hunderway
      have hthere := hfits.isRing_of_underway (eq_true_of_ne_false hunderway)
      rw [isRing_of_leads hleads, hring] at hthere
      cases hthere
    cases hstep with
    | polls =>
      rw [hunderway, Bool.and_false, if_neg Bool.false_ne_true]
      exact ih
    | _ => exact ih

/-- Nothing has gone wrong with a publication: it has not given up at a full mailbox, and nobody
was told that a ring is closed while the batch was on its way. -/
def Undisturbed (start : Queue α) (machine : Machine α) (result : Except (Rejected α) Unit) : Prop :=
  if start.isRing then machine.hasty = [] else result ≠ .error ⟨.closed, []⟩

/-- **A publication comes to all or to nobody**, whatever happens in the middle of it, unless it
gives up at a full mailbox, or somebody is told that a ring is closed while the batch is on its
way. In any case the batch has come to just those it has served. -/
theorem publication_is_all_or_nothing (hsound : start.Sound) (hidle : start.isBusy = false)
    (hleads : Leads { queue := start, batch } machine) {result : Except (Rejected α) Unit}
    (hreturned : machine.stage = .returned result) :
    (Undisturbed start machine result → AllOrNothing start machine result) ∧
      ∀ consumer, values (machine.told consumer) <+: machine.row start consumer ∧
        (machine.queue.IsConsumer consumer →
          values (machine.told consumer) ++ machine.queue.unread consumer
            = machine.row start consumer) := by
  have hkept := (kept_start hsound hidle batch).leads hleads
  have hfits := hkept.fits
  rw [hreturned] at hfits
  refine ⟨fun hundisturbed => ?_, fun consumer => ⟨hkept.given consumer, hkept.row consumer⟩⟩
  unfold Undisturbed at hundisturbed
  match result with
  | .error rejected =>
    obtain ⟨hback, hserved⟩ : rejected.batch = machine.batch ∧ machine.served = [] := by
      refine hfits.of_error.resolve_right fun ⟨hnothing, hboxes⟩ => ?_
      rw [← isRing_of_leads hleads, hboxes, if_neg Bool.false_ne_true] at hundisturbed
      exact hundisturbed (congrArg _ hnothing)
    have hrow : ∀ consumer, machine.row start consumer = start.unread consumer :=
      fun consumer => by
        rw [Machine.row, hserved, due_of_not_mem List.not_mem_nil, List.append_nil]
    refine ⟨hback, fun consumer => ?_⟩
    rw [← hrow consumer]
    exact ⟨hkept.given consumer, hkept.row consumer⟩
  | .ok () =>
    have hpatient : machine.hasty = [] := by
      by_cases hring : start.isRing = true
      · rwa [if_pos hring] at hundisturbed
      · exact hasty_of_leads hsound hidle hleads (eq_false_of_ne_true hring)
    intro consumer hstart hstill
    have hrow : machine.row start consumer = start.unread consumer ++ machine.batch := by
      rw [Machine.row, hfits.of_ok hstart hstill]
    rw [← hrow]
    refine ⟨hkept.row consumer hstill, fun front back htold => ?_⟩
    rcases hkept.closed consumer front back htold with hhasty | ⟨-, hvalues⟩
    · rw [hpatient] at hhasty
      cases hhasty
    · exact hvalues

/-- One consumer is given a value, and is told that nothing more will come after it. -/
theorem publication_is_all_or_nothing_of_one_consumer : ∃ (start : Queue Bool)
    (machine : Machine Bool), start.Sound ∧ start.isBusy = false ∧
      Leads { queue := start, batch := [true] } machine ∧ machine.stage = .returned (.ok ()) ∧
      machine.told 0 = [.ready true, .closed] ∧ start.unread 0 = [] ∧
      AllOrNothing start machine (.ok ()) := by
  let boxes : Mailboxes Bool := (Mailboxes.ofLimit 1).subscribe.2
  have hsound : (mailboxes boxes).Sound := (Mailboxes.sound_ofLimit 1).subscribe
  have hstart : Leads { queue := .mailboxes boxes, batch := [true] } _ := .refl
  -- the batch is put into the mailbox
  have hbegun := hstart.tail (.publishes (.begun (by decide) rfl rfl))
  have hhanded := hbegun.tail (.publishes (.handed Nat.zero_lt_one rfl rfl))
  have hfinished := hhanded.tail (.publishes (.finished (Nat.le_refl 1)))
  -- and read, before the queue is closed
  have hread := hfinished.tail (.polls (show Queue.IsConsumer _ 0 from rfl))
  have hclosed := (hread.tail .stops).tail (.disconnects rfl rfl)
  have htold := hclosed.tail (.polls (show Queue.IsConsumer _ 0 from rfl))
  exact ⟨_, _, hsound, rfl, htold, rfl, rfl, rfl,
    (publication_is_all_or_nothing hsound rfl htold rfl).1 nofun⟩

/-- Two consumers, of whom the second has not read its one batch. -/
def laggard : Mailboxes Bool where
  limit := 1
  limit_pos := Nat.zero_lt_one
  connected := [0, 1]
  inboxes := [(0, {}), (1, { pending := [[false]] })]
  registered := 2

theorem sound_laggard : (mailboxes laggard).Sound where
  isOpen := rfl
  connected
    | 0, _ | 1, _ => by decide
  nodup := by decide
  registered := by decide

/-- **A consumer is given the value of a batch that is refused and not handed back.** The queue is
closed while the publication waits at the second mailbox. -/
theorem refused_batch_is_read : ∃ machine : Machine Bool,
    Leads { queue := .mailboxes laggard, batch := [true] } machine ∧
      machine.stage = .returned (.error ⟨.closed, []⟩) ∧ machine.told 0 = [.ready true] ∧
      (mailboxes laggard).unread 0 = [] ∧
      ¬AllOrNothing (.mailboxes laggard) machine (.error ⟨.closed, []⟩) := by
  have hstart : Leads { queue := .mailboxes laggard, batch := [true] } _ := .refl
  have hbegun := hstart.tail (.publishes (.begun (by decide) rfl rfl))
  have hhanded := hbegun.tail (.publishes (.handed (by decide) rfl rfl))
  have hfull := hhanded.tail (.publishes (.foundFull (by decide) rfl rfl))
  have hbroken := (hfull.tail .stops).tail (.publishes (.gaveUp rfl))
  have hread := hbroken.tail (.polls (show Queue.IsConsumer _ 0 from rfl))
  refine ⟨_, hread, rfl, rfl, rfl, fun hall => ?_⟩
  have hback : [] = [true] := hall.1
  cases hback

end CommitLog.Queue.Blocking
