import CommitLog.Proofs.Queue.Contention.Told

/-!
# What a consumer has had when it is told that the queue is closed

A poll looks twice: for a value, and, having found none, whether the queue is closed. What it is
told is therefore as of its first look. The consumer has had everything that had been published by
then, and it has had everything if nobody was on the way to publish at that moment and the queue
was closed already. A batch that comes in between, or whose producer found the queue open and is
late, is published all the same, and the consumer is told that the queue is closed without it.
-/

namespace CommitLog.Queue.Contention

variable {α : Type} {machine after : Machine α} {party : Party} {next : Stage α}
  {capacity : Nat} {consumer : ConsumerId} {diary later : Diary α}

/-! ## What comes later -/

theorem Diary.returned_afterTurn (diary : Diary α) (machine after : Machine α) (party : Party) :
    diary.returned <+: (diary.afterTurn machine after party).returned := by
  unfold afterTurn note
  split
  · exact List.prefix_append ..
  all_goals exact List.prefix_rfl

/-- Only a publication that is under way returns. -/
theorem Diary.returned_of_not_underway (diary : Diary α) (after : Machine α)
    (hidle : ¬(machine.stages party).Underway) :
    (diary.afterTurn machine after party).returned = diary.returned := by
  unfold afterTurn note
  split
  next hstage _ =>
    rw [hstage] at hidle
    exact absurd trivial hidle
  all_goals rfl

theorem Continues.returned (h : Continues machine diary after later) :
    diary.returned <+: later.returned := by
  induction h with
  | refl => exact List.prefix_rfl
  | step _ _ ih => exact ih.trans (Diary.returned_afterTurn ..)

/-- No publication returns any more once the queue is closed and nobody publishes. -/
theorem Sealed.continues (h : Sealed machine) (hcontinues : Continues machine diary after later) :
    Sealed after ∧ later.returned = diary.returned := by
  induction hcontinues with
  | refl => exact ⟨h, rfl⟩
  | step _ turn ih =>
    obtain ⟨hsealed, hreturned⟩ := ih
    exact ⟨(hsealed.step turn.step).1,
      (Diary.returned_of_not_underway _ _ (hsealed.idle _)).trans hreturned⟩

/-- Nothing was published after a look at a queue that was closed for good. -/
theorem Told.looked_of_settled (h : Told capacity machine diary) (hsettled : diary.settled consumer) :
    diary.looked consumer = diary.returned.length := by
  induction h with
  | start => cases hsettled
  | @step machine after diary party h _ ih =>
    have hother : ∀ {id : ConsumerId} {isSettled : Prop}, (diary.look isSettled id).settled consumer →
        (diary.look isSettled id).looked consumer = diary.returned.length := fun {id _} hsettled => by
      by_cases hid : consumer = id
      · subst hid
        exact Function.update_self ..
      · refine (Function.update_of_ne hid ..).trans (ih ?_)
        have hwas : Function.update diary.settled id _ consumer := hsettled
        rwa [Function.update_of_ne hid] at hwas
    unfold Diary.afterTurn Diary.note at hsettled ⊢
    split at hsettled
    next hstage _ =>
      have hsealed := h.faithful.settled consumer hsettled
      exact absurd (by rw [hstage]; trivial) (hsealed.idle _)
    next => exact ih hsettled
    next => exact hother hsettled
    next => exact hother hsettled
    next => exact ih hsettled
    next => exact ih hsettled

/-! ## Closed -/

/-- Whatever was published since a consumer was handed out, and whatever will be, was given to
it. -/
def Drained (machine : Machine α) (diary : Diary α) (consumer : ConsumerId) : Prop :=
  ∀ after later, Continues machine diary after later →
    (later.returned.drop (diary.since consumer)).flatten <:+ diary.given consumer

theorem Diary.upTo_eq_append (diary : Diary α) {m n : Nat} (hle : m ≤ n) :
    diary.upTo n = diary.upTo m ++ ((diary.returned.take n).drop m).flatten := by
  have htake : diary.returned.take m = (diary.returned.take n).take m := by
    rw [List.take_take, Nat.min_eq_left hle]
  rw [upTo, upTo, htake, ← List.flatten_append, List.take_append_drop]

theorem Diary.upTo_prefix (diary : Diary α) (n : Nat) : diary.upTo n <+: diary.returned.flatten :=
  ⟨(diary.returned.drop n).flatten, by rw [upTo, ← List.flatten_append, List.take_append_drop]⟩

/-- Somebody who has been given all that was published when it looked. -/
theorem CaughtUp.given (h : CaughtUp machine.ring diary consumer)
    (hplaced : Placed machine.ring diary consumer) :
    ∃ early, early <:+ diary.upTo (diary.since consumer) ∧
      diary.given consumer = early ++
        ((diary.returned.take (diary.looked consumer)).drop (diary.since consumer)).flatten := by
  obtain ⟨-, first, cursor, hmem, -, hfirst, hgiven⟩ := hplaced
  have hseen : diary.returned.flatten.take cursor = diary.upTo (diary.looked consumer) := by
    rw [h.cursor cursor hmem]
    exact (List.prefix_iff_eq_take.1 (diary.upTo_prefix _)).symm
  refine ⟨(diary.upTo (diary.since consumer)).drop first, List.drop_suffix .., ?_⟩
  rw [hgiven, hseen, diary.upTo_eq_append h.since_le, List.drop_append_of_le_length hfirst]

theorem Faithful.caughtUp_of_closed (h : Faithful machine diary)
    (hclosed : machine.stages (.consumer consumer) = .resting (some (.polled .closed))) :
    machine.ring.closed = true ∧ CaughtUp machine.ring diary consumer ∧
      Placed machine.ring diary consumer := by
  have haccounts := h.accounts consumer
  rw [hclosed] at haccounts
  obtain ⟨hring, hcaught⟩ := haccounts.closed rfl
  exact ⟨hring, hcaught, haccounts.placed trivial⟩

/-- **A consumer that is told that the queue is closed has had what was published when it last
looked, and everything there is if the queue was closed for good then.** -/
theorem closed_is_told_as_of_the_last_look (h : Told capacity machine diary)
    (hclosed : machine.stages (.consumer consumer) = .resting (some (.polled .closed))) :
    machine.ring.closed = true ∧
      diary.since consumer ≤ diary.looked consumer ∧
      diary.looked consumer ≤ diary.returned.length ∧
      (∃ early, early <:+ diary.upTo (diary.since consumer) ∧
        diary.given consumer = early ++
          ((diary.returned.take (diary.looked consumer)).drop (diary.since consumer)).flatten) ∧
      (diary.settled consumer → Drained machine diary consumer) := by
  obtain ⟨hring, hcaught, hplaced⟩ := h.faithful.caughtUp_of_closed hclosed
  obtain ⟨early, hearly, hgiven⟩ := hcaught.given hplaced
  refine ⟨hring, hcaught.since_le, hcaught.looked_le, ⟨early, hearly, hgiven⟩, ?_⟩
  intro hsettled after later hcontinues
  have hreturned := ((h.faithful.settled consumer hsettled).continues hcontinues).2
  rw [hgiven, hreturned, h.looked_of_settled hsettled, List.take_length]
  exact List.suffix_append ..

/-! ## Runs, step by step -/

theorem Told.goto {base : Machine α} (h : Told capacity machine diary)
    (hstep : Step machine (base.goto party next))
    (hbase : base.stages = machine.stages := by rfl) :
    Told capacity (base.goto party next)
      (diary.note (Sealed machine) party (machine.stages party) next) := by
  have htold := h.step (Turn.of_goto hbase hstep)
  rwa [Diary.afterTurn, Machine.stages_goto] at htold

/-- Whoever has claimed a range can fill it and publish it once it is its turn. -/
theorem leads_of_filling {id start : Nat} {batch : List α}
    (hstage : machine.stages (.caller id) = .filling start [] batch)
    (hturn : machine.ring.published = start) :
    Leads machine ({ machine with
      ring := publishTo (fillFrom machine.ring start batch) (start + batch.length) }.goto
        (.caller id) (.resting (some (.published (.ok ()))))) := by
  have hself : machine.goto (.caller id) (.filling start [] batch) = machine := by
    rw [← hstage, Machine.goto, Function.update_eq_self]
  have hleads : Leads (machine.goto (.caller id) (.filling start [] batch)) _ :=
    leads_published machine hturn
  rwa [hself] at hleads

/-- A consumer subscribes, is given the one value that is published, and is told that the queue is
closed. -/
theorem closed_is_told_as_of_the_last_look_of_one_value : ∃ (machine : Machine Bool) (diary : Diary Bool),
    Told 2 machine diary ∧ machine.stages (.consumer 0) = .resting (some (.polled .closed)) ∧
      diary.settled 0 ∧ diary.since 0 = 0 ∧ diary.returned = [[true]] ∧ diary.given 0 = [true] ∧
      Drained machine diary 0 := by
  have hstart : Told 2 (.start 2 : Machine Bool) {} := .start
  -- somebody subscribes
  have henlisting := hstart.goto (.looks (show Looks _ (.caller 0) _ _ from .subscribes))
  have hobserving := henlisting.goto (.locks (show Locks _ (.caller 0) _ _ _ _ from .enlisted))
  have henrolling := hobserving.goto (.looks (show Looks _ (.caller 0) _ _ from .observed))
  have henrolled := henrolling.goto (.enrolled (Machine.stages_goto ..))
  have hsubscribed := henrolled.step (henrolled.faithful.turn_subscribed
    (Machine.stages_goto ..) rfl)
  -- and publishes a value
  have hchecking := hsubscribed.goto (.looks
    (show Looks _ (.caller 0) _ _ from .offered ⟨[true], by decide, false⟩))
  have hentering := hchecking.goto (.looks (show Looks _ (.caller 0) _ _ from .admitted rfl))
  have hreserving := hentering.goto (.looks (show Looks _ (.caller 0) _ _ from .foundOpen rfl))
  have hgating := hreserving.goto (.looks (show Looks _ (.caller 0) _ _ from .reserved))
  have hlisting := hgating.goto (.looks (show Looks _ (.caller 0) _ _ from .gated))
  have hscanning := hlisting.goto (.locks (show Locks _ (.caller 0) _ _ _ _ from .listed))
  have hscanned := hscanning.goto (.looks (show Looks _ (.caller 0) _ _ from .scanned rfl))
  have hweighing := hscanned.goto (.locks (show Locks _ (.caller 0) _ _ _ _ from .scannedAll))
  have hswapping := hweighing.goto (.looks (show Looks _ (.caller 0) _ _ from
    .foundRoom (Nat.zero_le 1) (Nat.le_succ 1)))
  have hfilling := hswapping.goto (.granted (Machine.stages_goto ..) rfl)
  have hfilled := hfilling.goto (.filled (Machine.stages_goto ..))
  have hawaiting := hfilled.goto (.looks (show Looks _ (.caller 0) _ _ from .filledAll))
  have hturn := hawaiting.goto (.looks (show Looks _ (.caller 0) _ _ from .foundTurn rfl))
  have hpublished := hturn.goto (.published (Machine.stages_goto ..))
  -- the consumer is given the value
  have hpolling := hpublished.goto (.looks (show Looks _ (.consumer 0) _ _ from .polls))
  have hcomparing := hpolling.goto (.looks (show Looks _ (.consumer 0) _ _ from .loaded rfl))
  have hreading := hcomparing.goto (.looks (show Looks _ (.consumer 0) _ _ from
    .foundValue Nat.zero_lt_one))
  have hmoving := hreading.goto (.looks (show Looks _ (.consumer 0) _ _ from .copied))
  have hgiven := hmoving.goto (.moved (Machine.stages_goto ..))
  -- and, once the queue is closed and nobody publishes, finds no other one
  have hclosing := hgiven.goto (.looks (show Looks _ (.caller 0) _ _ from .closes))
  have hclosed := hclosing.goto (.closed (Machine.stages_goto ..))
  have hpolling := hclosed.goto (.looks (show Looks _ (.consumer 0) _ _ from .polls))
  have hcomparing := hpolling.goto (.looks (show Looks _ (.consumer 0) _ _ from .loaded rfl))
  have hending := hcomparing.goto (.looks (show Looks _ (.consumer 0) _ _ from
    .foundNothing (Nat.le_refl 1)))
  have htold := hending.goto (.looks (show Looks _ (.consumer 0) _ _ from .ended))
  have hdrained := (closed_is_told_as_of_the_last_look htold
    (show Machine.stages _ (.consumer 0) = _ from rfl)).2.2.2.2
  refine ⟨_, _, htold, rfl, ?_, rfl, rfl, rfl, hdrained ?_⟩
  all_goals
    refine ⟨rfl, fun party => ?_⟩
    match party with
    | .caller 0 | .caller (_ + 1) | .consumer 0 | .consumer (_ + 1) => exact id

/-- **A consumer is told that the queue is closed, and misses what is published after.** The
producer had found the queue open and was writing its value. -/
theorem closed_is_told_before_the_last_value : ∃ (machine : Machine Bool) (diary : Diary Bool),
    Told 1 machine diary ∧ machine.stages (.consumer 0) = .resting (some (.polled .closed)) ∧
      diary.given 0 = [] ∧ ¬Drained machine diary 0 := by
  -- somebody subscribes, and a producer claims a range
  have hstart : Told 1 (.start 1 : Machine Bool) {} := .start
  have hsubscribed : Leads (.start 1 : Machine Bool) _ := leads_subscribe 0 rfl rfl
  have hsound := (Reachable.start.leads hsubscribed).sound
  have hchecking := hsubscribed.tail (.looks
    (show Looks _ (.caller 1) _ _ from .offered ⟨[true], by decide, false⟩))
  have hweighing := hchecking.trans ((leads_looks (.admitted rfl)).trans
    (Quiet.leads_weighing ⟨hsound, rfl, rfl⟩ rfl))
  have hswapping := hweighing.trans (leads_looks (.foundRoom (Nat.zero_le 1) (Nat.le_refl 1)))
  have hfilling := hswapping.tail (.granted (Machine.stages_goto ..) rfl)
  -- the queue is closed, and the consumer looks
  have hclosed := hfilling.trans (leads_close 0 rfl)
  have hended := hclosed.trans (leads_next (show List.lookup 0 _ = some 0 from rfl) rfl)
  obtain ⟨diary, hcontinues⟩ := hstart.leads hended
  have htold := hstart.continues hcontinues
  have hfaithful := htold.faithful
  have hreturned : diary.returned = [] := by
    have hpublished : 0 = diary.returned.flatten.length := hfaithful.published
    have hprefix : diary.returned <+: [[true]] := hfaithful.returned
    exact eq_of_prefix hfaithful.granted_ne hprefix List.nil_prefix hpublished.symm
  -- nothing was published so far, so nothing was given
  obtain ⟨-, hcaught, hplaced⟩ := hfaithful.caughtUp_of_closed
    (show Machine.stages _ (.consumer 0) = _ from rfl)
  obtain ⟨early, hearly, hgiven⟩ := hcaught.given hplaced
  have hsince : diary.since 0 = 0 := by
    have hle := Nat.le_trans hcaught.since_le hcaught.looked_le
    rw [hreturned] at hle
    exact Nat.le_zero.1 hle
  have hnothing : diary.given 0 = [] := by
    rw [Diary.upTo, hreturned, List.take_nil, List.flatten_nil] at hearly
    rw [hgiven, List.suffix_nil.1 hearly, hreturned, List.take_nil, List.drop_nil,
      List.flatten_nil, List.append_nil]
  refine ⟨_, diary, htold, rfl, hnothing, fun hdrained => ?_⟩
  -- the producer goes on
  obtain ⟨later, hlater⟩ := htold.leads (leads_of_filling (show Machine.stages _ (.caller 1) =
    .filling 0 [] [true] from rfl) rfl)
  have hlast := (htold.continues hlater).faithful
  have hreturned' : later.returned = [[true]] := by
    have hpublished : 1 = later.returned.flatten.length := hlast.published
    have hprefix : later.returned <+: [[true]] := hlast.returned
    exact eq_of_prefix hlast.granted_ne hprefix List.prefix_rfl hpublished.symm
  have hsuffix := hdrained _ later hlater
  rw [hnothing, hreturned', hsince] at hsuffix
  exact absurd hsuffix (by decide)

end CommitLog.Queue.Contention
