import CommitLog.Proofs.Queue.Contention.Slots

/-!
# What callers and consumers are told

A diary keeps what happens at a ring as its users see it: which publications have returned, which
values each consumer was given, and how far the publications had come when a consumer was handed
out and when it last looked for a value. It is kept from the stages that the parties leave and
come to, and no step looks at it.

`Faithful` ties it to the ring: what has returned is what is published, and a consumer was given
what lies between the place where it began and its cursor.
-/

namespace CommitLog.Queue.Contention

variable {α : Type} {machine after : Machine α} {party other : Party} {stage next : Stage α}
  {capacity : Nat} {ring : Ring α} {consumer : ConsumerId} {number cursor : Nat}

theorem Machine.stages_goto_of_ne (machine : Machine α) (stage : Stage α) (h : other ≠ party) :
    (machine.goto party stage).stages other = machine.stages other :=
  Function.update_of_ne h ..

/-! ## Closed for good -/

/-- Whether a producer has found the queue open and has not published its range yet. -/
def Stage.Underway : Stage α → Prop
  | reserving _ | gating .. | listing .. | scanning .. | weighing .. | swapping .. => True
  | filling .. | awaiting .. | publishing .. => True
  | _ => False

/-- The queue is closed, and nobody is on the way to publish anything. -/
structure Sealed (machine : Machine α) : Prop where
  closed : machine.ring.closed = true
  idle : ∀ party, ¬(machine.stages party).Underway

/-- A party goes to a stage that is on no way to a publication. -/
theorem Sealed.goto {lock : Lock} (h : Sealed machine) (hclosed : ring.closed = true)
    (granted : List (List α)) (hidle : ¬next.Underway) :
    Sealed (({ machine with ring, lock, granted } : Machine α).goto party next) where
  closed := hclosed
  idle other := by
    by_cases hother : other = party
    · subst hother
      simpa [Machine.goto] using hidle
    · simpa [Machine.goto, hother] using h.idle other

theorem Offer.not_underway_whenFull (offer : Offer α) : ¬offer.whenFull.Underway :=
  offer.whenFull_of (motive := fun stage => ¬stage.Underway) id id

/-- Whoever was on no way to a publication is on none after a look at a closed queue. -/
theorem Looks.not_underway (h : Looks ring party stage next) (hclosed : ring.closed = true)
    (hidle : ¬stage.Underway) : ¬next.Underway := by
  cases h with
  | foundOpen isOpen =>
    rw [hclosed] at isOpen
    cases isOpen
  | reserved | gated | scanned | foundRoom | filledAll | foundTurn => exact absurd trivial hidle
  | @foundFull _ offer => exact offer.not_underway_whenFull
  | @wrapped _ offer => exact offer.not_underway_whenFull
  | _ => exact id

theorem Locks.not_underway {lock lock' : Lock} (h : Locks ring party lock stage lock' next)
    (hidle : ¬stage.Underway) : ¬next.Underway := by
  cases h with
  | listed | scannedAll => exact absurd trivial hidle
  | _ => exact id

/-- **A queue that is closed while nobody publishes stays so, with what is published in it.** -/
theorem Sealed.step (h : Sealed machine) (hstep : Step machine after) :
    Sealed after ∧ after.ring.published = machine.ring.published := by
  have hidle : ∀ party, (machine.stages party).Underway → False := h.idle
  cases hstep with
  | looks hlooks => exact ⟨h.goto h.closed _ (hlooks.not_underway h.closed (h.idle _)), rfl⟩
  | locks hlocks => exact ⟨h.goto h.closed _ (hlocks.not_underway (h.idle _)), rfl⟩
  | granted stage => exact (hidle _ (by rw [stage]; trivial)).elim
  | filled stage => exact (hidle _ (by rw [stage]; trivial)).elim
  | published stage => exact (hidle _ (by rw [stage]; trivial)).elim
  | @enrolled _ cursor =>
    exact ⟨h.goto (show (enroll machine.ring cursor).closed = true from h.closed) _ nofun, rfl⟩
  | @subscribed id consumer =>
    have hreleased : Sealed (({ machine with lock := .shared [] } : Machine α).goto (.caller id)
        (.resting (some (.registered consumer)))) := h.goto h.closed _ nofun
    exact ⟨hreleased.goto hreleased.closed _ nofun, rfl⟩
  | closed => exact ⟨h.goto (show machine.ring.close.closed = true from rfl) _ nofun, rfl⟩
  | @moved id number =>
    exact ⟨h.goto (show (moveTo machine.ring id (number + 1)).closed = true from h.closed) _ nofun,
      rfl⟩
  | @delisted id =>
    exact ⟨h.goto (show (machine.ring.unsubscribe id).closed = true from h.closed) _ nofun, rfl⟩

/-! ## The diary -/

/-- What the users of a ring have seen so far. -/
structure Diary (α : Type) where
  /-- The batches whose publication has returned, in order. -/
  returned : List (List α) := []
  /-- The values that each consumer was given, in order. -/
  given : ConsumerId → List α := fun _ => []
  /-- How many publications had returned when a consumer was handed out. -/
  since : ConsumerId → Nat := fun _ => 0
  /-- How many publications had returned when a consumer last looked at what is published. -/
  looked : ConsumerId → Nat := fun _ => 0
  /-- Whether the queue was closed for good when a consumer last looked at what is published. -/
  settled : ConsumerId → Prop := fun _ => False

namespace Diary

/-- A publication has returned. -/
def publish (diary : Diary α) (batch : List α) : Diary α :=
  { diary with returned := diary.returned ++ [batch] }

/-- A consumer is handed out. -/
def handOut (diary : Diary α) (consumer : ConsumerId) : Diary α :=
  { diary with since := Function.update diary.since consumer diary.returned.length }

/-- A consumer looks at what is published. -/
def look (diary : Diary α) (isSettled : Prop) (consumer : ConsumerId) : Diary α :=
  { diary with
    looked := Function.update diary.looked consumer diary.returned.length
    settled := Function.update diary.settled consumer isSettled }

/-- A consumer is given a value, if it has found one. -/
def give (diary : Diary α) (consumer : ConsumerId) (found : Option α) : Diary α :=
  { diary with
    given := Function.update diary.given consumer (diary.given consumer ++ found.toList) }

/-- Notes that a party has gone from one stage to another. -/
def note (diary : Diary α) (isSettled : Prop) : Party → Stage α → Stage α → Diary α
  | .caller _, .publishing _ batch, .resting _ => diary.publish batch
  | .caller _, .enrolled consumer, .resting _ => diary.handOut consumer
  | .consumer id, .comparing _, .ending => diary.look isSettled id
  | .consumer id, .comparing _, .reading _ => diary.look isSettled id
  | .consumer id, .moving _ found, .resting _ => diary.give id found
  | _, _, _ => diary

/-- What the first `n` publications that returned have brought. -/
def upTo (diary : Diary α) (n : Nat) : List α := (diary.returned.take n).flatten

theorem note_self (diary : Diary α) (isSettled : Prop) (party : Party) (stage : Stage α) :
    diary.note isSettled party stage stage = diary := by
  cases party <;> cases stage <;> rfl

end Diary

/-- A step, and the party that takes it. Of the others only a new consumer comes to a stage. -/
structure Turn (machine after : Machine α) (party : Party) : Prop where
  step : Step machine after
  others : ∀ other ≠ party, machine.stages other ≠ .absent →
    after.stages other = machine.stages other

/-- The diary after a step. -/
def Diary.afterTurn (diary : Diary α) (machine after : Machine α) (party : Party) : Diary α :=
  diary.note (Sealed machine) party (machine.stages party) (after.stages party)

/-- What an empty ring can come to, and the diary of it. -/
inductive Told (capacity : Nat) : Machine α → Diary α → Prop where
  | start : Told capacity (.start capacity) {}
  | step {machine after : Machine α} {diary : Diary α} {party : Party}
      (h : Told capacity machine diary) (turn : Turn machine after party) :
      Told capacity after (diary.afterTurn machine after party)

/-- A ring and its diary go on to another state, and the diary of that. -/
inductive Continues (machine : Machine α) (diary : Diary α) : Machine α → Diary α → Prop where
  | refl : Continues machine diary machine diary
  | step {between after : Machine α} {later : Diary α} {party : Party}
      (h : Continues machine diary between later) (turn : Turn between after party) :
      Continues machine diary after (later.afterTurn between after party)

variable {diary later : Diary α}

theorem Told.continues (h : Told capacity machine diary)
    (hcontinues : Continues machine diary after later) : Told capacity after later := by
  induction hcontinues with
  | refl => exact h
  | step _ turn ih => exact ih.step turn

/-! ## What the diary says of the ring -/

/-- Whether a consumer has a cursor in the list. -/
def Stage.Present : Stage α → Prop
  | absent | delisted => False
  | _ => True

/-- What was given to a consumer lies between the place where it began and its cursor. It began
no later than where the publications had come when it was handed out. -/
structure Placed (ring : Ring α) (diary : Diary α) (consumer : ConsumerId) : Prop where
  since_le : diary.since consumer ≤ diary.returned.length
  given : ∃ first cursor, (consumer, cursor) ∈ ring.cursors ∧ first ≤ cursor ∧
    first ≤ (diary.upTo (diary.since consumer)).length ∧
    diary.given consumer = (diary.returned.flatten.take cursor).drop first

/-- A consumer had been given everything that was published when it last looked. -/
structure CaughtUp (ring : Ring α) (diary : Diary α) (consumer : ConsumerId) : Prop where
  since_le : diary.since consumer ≤ diary.looked consumer
  looked_le : diary.looked consumer ≤ diary.returned.length
  cursor : ∀ cursor, (consumer, cursor) ∈ ring.cursors →
    cursor = (diary.upTo (diary.looked consumer)).length

/-- What the diary says of a consumer that is at a stage. -/
structure Accounts (ring : Ring α) (diary : Diary α) (consumer : ConsumerId) (stage : Stage α) :
    Prop where
  placed : stage.Present → Placed ring diary consumer
  ending : stage = .ending → CaughtUp ring diary consumer
  closed : stage = .resting (some (.polled .closed)) →
    ring.closed = true ∧ CaughtUp ring diary consumer

/-- What the diary says is so. -/
structure Faithful (machine : Machine α) (diary : Diary α) : Prop where
  sound : Sound machine
  returned : diary.returned <+: machine.granted
  published : machine.ring.published = diary.returned.flatten.length
  granted_ne : ∀ batch ∈ machine.granted, batch ≠ []
  /-- Consumers to come. -/
  fresh : ∀ consumer, machine.ring.registered ≤ consumer →
    machine.stages (.consumer consumer) = .absent ∧ diary.given consumer = []
  /-- A consumer that has a cursor and is not handed out yet. -/
  enrolled : ∀ id consumer, machine.stages (.caller id) = .enrolled consumer →
    machine.stages (.consumer consumer) = .absent ∧ diary.given consumer = [] ∧
      ∃ cursor, (consumer, cursor) ∈ machine.ring.cursors
  accounts : ∀ consumer,
    Accounts machine.ring diary consumer (machine.stages (.consumer consumer))
  settled : ∀ consumer, diary.settled consumer → Sealed machine

theorem faithful_start (capacity : Nat) : Faithful (.start capacity : Machine α) {} where
  sound := sound_start capacity
  returned := List.nil_prefix
  published := rfl
  granted_ne _ h := nomatch h
  fresh _ _ := ⟨rfl, rfl⟩
  enrolled _ _ h := nomatch h
  accounts _ := ⟨nofun, nofun, nofun⟩
  settled _ h := nomatch h

/-! ## Readers that are left as they are -/

/-- A diary that says the same of a consumer, and a ring with the same cursor of it. -/
structure Alike (ring ring' : Ring α) (diary diary' : Diary α) (consumer : ConsumerId) : Prop where
  given : diary'.given consumer = diary.given consumer
  since : diary'.since consumer = diary.since consumer
  looked : diary'.looked consumer = diary.looked consumer
  returned : diary.returned <+: diary'.returned
  cursors : ∀ cursor, (consumer, cursor) ∈ ring'.cursors ↔ (consumer, cursor) ∈ ring.cursors
  closed : ring.closed = true → ring'.closed = true

theorem Diary.upTo_of_prefix {diary diary' : Diary α} (h : diary.returned <+: diary'.returned)
    {n : Nat} (hn : n ≤ diary.returned.length) : diary'.upTo n = diary.upTo n := by
  obtain ⟨news, hnews⟩ := h
  unfold upTo
  rw [← hnews, List.take_append_of_le_length hn]

theorem Accounts.alike {ring' : Ring α} {diary' : Diary α}
    (h : Accounts ring diary consumer stage) (halike : Alike ring ring' diary diary' consumer)
    (hreach : ∀ cursor, (consumer, cursor) ∈ ring.cursors →
      cursor ≤ diary.returned.flatten.length) :
    Accounts ring' diary' consumer stage := by
  have hlength := halike.returned.length_le
  have hcaught : CaughtUp ring diary consumer → CaughtUp ring' diary' consumer := fun hcaught => by
    refine ⟨?_, ?_, fun cursor hmem => ?_⟩
    · rw [halike.since, halike.looked]
      exact hcaught.since_le
    · rw [halike.looked]
      exact Nat.le_trans hcaught.looked_le hlength
    · rw [halike.looked, Diary.upTo_of_prefix halike.returned hcaught.looked_le]
      exact hcaught.cursor cursor ((halike.cursors cursor).1 hmem)
  refine ⟨fun hpresent => ?_, fun hending => hcaught (h.ending hending), fun hclosed => ?_⟩
  · obtain ⟨hsince, first, cursor, hmem, hfirst, hfirst', hgiven⟩ := h.placed hpresent
    refine ⟨halike.since ▸ Nat.le_trans hsince hlength, first, cursor,
      (halike.cursors cursor).2 hmem, hfirst, ?_, ?_⟩
    · rwa [halike.since, Diary.upTo_of_prefix halike.returned hsince]
    · obtain ⟨news, hnews⟩ := halike.returned
      rw [halike.given, hgiven, ← hnews, List.flatten_append,
        List.take_append_of_le_length (hreach cursor hmem)]
  · exact (h.closed hclosed).imp halike.closed hcaught

/-! ## One party at another stage -/

theorem Faithful.reach (h : Faithful machine diary)
    (hmem : (consumer, cursor) ∈ machine.ring.cursors) : cursor ≤ diary.returned.flatten.length :=
  h.published ▸ (h.sound.memory.cursors _ hmem).1

/-- A party goes to another stage, having written to the ring or taken the lock, and the diary
notes it. -/
theorem Faithful.goto {lock : Lock} {granted : List (List α)} {diary' : Diary α}
    (h : Faithful machine diary)
    (hsound : Sound (({ machine with ring, granted, lock } : Machine α).goto party next))
    (hreturned : diary'.returned <+: granted)
    (hpublished : ring.published = diary'.returned.flatten.length)
    (hne : ∀ batch ∈ granted, batch ≠ [])
    (hregistered : ring.registered = machine.ring.registered)
    (hothers : ∀ id, party ≠ .consumer id → Alike machine.ring ring diary diary' id)
    (hown : ∀ id, party = .consumer id → Accounts ring diary' id next)
    (hstage : machine.stages party ≠ .absent) (hnext : ∀ id, next ≠ .enrolled id)
    (hsettled : ∀ id, diary'.settled id →
      Sealed (({ machine with ring, granted, lock } : Machine α).goto party next)) :
    Faithful (({ machine with ring, granted, lock } : Machine α).goto party next) diary' where
  sound := hsound
  returned := hreturned
  published := hpublished
  granted_ne := hne
  fresh id hid := by
    obtain ⟨habsent, hgiven⟩ := h.fresh id (hregistered ▸ hid)
    have hother : party ≠ .consumer id := fun hparty => hstage (hparty ▸ habsent)
    refine ⟨?_, (hothers id hother).given.trans hgiven⟩
    rw [← habsent]
    exact Function.update_of_ne hother.symm ..
  enrolled caller id hcaller := by
    have hcaller' : party ≠ .caller caller := fun hparty => by
      subst hparty
      rw [Machine.stages_goto] at hcaller
      exact hnext id hcaller
    have hwas : machine.stages (.caller caller) = .enrolled id := by
      rw [← hcaller]
      exact (Function.update_of_ne hcaller'.symm ..).symm
    obtain ⟨habsent, hgiven, cursor, hmem⟩ := h.enrolled caller id hwas
    have hother : party ≠ .consumer id := fun hparty => hstage (hparty ▸ habsent)
    refine ⟨?_, (hothers id hother).given.trans hgiven, cursor,
      ((hothers id hother).cursors cursor).2 hmem⟩
    rw [← habsent]
    exact Function.update_of_ne hother.symm ..
  accounts id := by
    by_cases hparty : party = .consumer id
    · subst hparty
      rw [Machine.stages_goto]
      exact hown id rfl
    · have hsame : (({ machine with ring, granted, lock } : Machine α).goto party next).stages
          (.consumer id) = machine.stages (.consumer id) :=
        Function.update_of_ne (Ne.symm hparty) ..
      rw [hsame]
      exact (h.accounts id).alike (hothers id hparty) fun cursor hmem => h.reach hmem
  settled := hsettled

/-- A step of a party that the diary does not speak of, and that leaves cursors and publications
as they are. -/
theorem Faithful.goto_aside {lock : Lock} {granted : List (List α)} (h : Faithful machine diary)
    (hstep : Step machine (({ machine with ring, granted, lock } : Machine α).goto party next))
    (hgranted : machine.granted <+: granted) (hne : ∀ batch ∈ granted, batch ≠ [])
    (hpublished : ring.published = machine.ring.published)
    (hregistered : ring.registered = machine.ring.registered)
    (hcursors : ring.cursors = machine.ring.cursors)
    (hclosed : machine.ring.closed = true → ring.closed = true)
    (hown : ∀ id, party = .consumer id → Accounts machine.ring diary id next)
    (hstage : machine.stages party ≠ .absent) (hnext : ∀ id, next ≠ .enrolled id) :
    Faithful (({ machine with ring, granted, lock } : Machine α).goto party next) diary := by
  have halike : ∀ id, Alike machine.ring ring diary diary id := fun id =>
    ⟨rfl, rfl, rfl, List.prefix_rfl, fun cursor => by rw [hcursors], hclosed⟩
  exact h.goto (h.sound.step hstep) (h.returned.trans hgranted) (hpublished.trans h.published) hne
    hregistered (fun id _ => halike id)
    (fun id hparty => (hown id hparty).alike (halike id) fun cursor hmem => h.reach hmem)
    hstage hnext fun id hsettled => ((h.settled id hsettled).step hstep).1

end CommitLog.Queue.Contention
