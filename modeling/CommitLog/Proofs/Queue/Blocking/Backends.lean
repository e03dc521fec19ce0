import CommitLog.Proofs.Queue.Blocking.Machine
import CommitLog.Proofs.Queue.Shut

/-!
# What the steps of a publication do to a queue

For each backend: where the queue stands at every stage of a publication (`RingAt`, `BoxesAt`),
what a step of the producer brings to the consumers (`Brings`), and what the operations of others
leave as it is (`Same`). Once a consumer has been told that the queue is closed, and the batch is
not on its way into a ring, the batch does not come to it any more (`Over`).
-/

namespace CommitLog.Queue

variable {α : Type} {queue after : Queue α} {consumer other : ConsumerId}

/-- Nothing has changed for a consumer. -/
structure Same (queue after : Queue α) (consumer : ConsumerId) : Prop where
  isConsumer : after.IsConsumer consumer ↔ queue.IsConsumer consumer
  unread : after.unread consumer = queue.unread consumer

/-- Nothing waits for somebody who is no consumer. -/
theorem unread_of_not_isConsumer (h : ¬queue.IsConsumer consumer) : queue.unread consumer = [] := by
  cases queue with
  | ring r =>
    have hnone : r.cursors.lookup consumer = none := Option.not_isSome_iff_eq_none.1 h
    simp only [unread, Ring.unread, hnone]
  | mailboxes boxes =>
    have hnone : boxes.inbox? consumer = none := Option.not_isSome_iff_eq_none.1 h
    simp only [unread, Mailboxes.unread, hnone]

theorem same_ring {r r' : Ring α} (hlookup : r'.cursors.lookup consumer = r.cursors.lookup consumer)
    (hslots : r'.slots = r.slots) (hpublished : r'.published = r.published) :
    (ring r).Same (ring r') consumer where
  isConsumer := by
    show (r'.cursors.lookup consumer).isSome ↔ (r.cursors.lookup consumer).isSome
    rw [hlookup]
  unread := by
    have hvalue : r'.value? = r.value? := by
      funext number
      simp only [Ring.value?, Ring.capacity, hslots]
    show r'.unread consumer = r.unread consumer
    simp only [Ring.unread, hlookup, hpublished, hvalue]

theorem same_mailboxes {boxes boxes' : Mailboxes α}
    (hinbox : boxes'.inbox? consumer = boxes.inbox? consumer) :
    (mailboxes boxes).Same (mailboxes boxes') consumer where
  isConsumer := by
    show (boxes'.inbox? consumer).isSome ↔ (boxes.inbox? consumer).isSome
    rw [hinbox]
  unread := Mailboxes.unread_eq_of_inbox?_eq hinbox

/-! ## Others -/

theorem same_next (queue : Queue α) (hne : other ≠ consumer) :
    queue.Same (queue.next other).2 consumer := by
  cases queue with
  | ring r =>
    refine same_ring (Ring.lookup_next_ne r hne) ?_ ?_ <;>
      rcases r.next_eq other with hstay | hmoved
    · rw [hstay]
    · rw [hmoved]
    · rw [hstay]
    · rw [hmoved]
  | mailboxes boxes => exact same_mailboxes (Mailboxes.inbox?_next_ne boxes hne)

theorem same_unsubscribe (queue : Queue α) (hne : other ≠ consumer) :
    queue.Same (queue.unsubscribe other) consumer := by
  cases queue with
  | ring r => exact same_ring (lookup_filter_ne hne) rfl rfl
  | mailboxes boxes => exact same_mailboxes (lookup_filter_ne hne)

theorem not_isConsumer_unsubscribe (queue : Queue α) (consumer : ConsumerId) :
    ¬(queue.unsubscribe consumer).IsConsumer consumer := by
  cases queue with
  | ring r =>
    show ¬((r.unsubscribe consumer).cursors.lookup consumer).isSome
    have hnone : (r.unsubscribe consumer).cursors.lookup consumer = none := by
      simpa [Ring.unsubscribe, List.lookup_eq_none_iff] using fun id _ _ hne => Ne.symm hne
    rw [hnone]
    exact Bool.false_ne_true
  | mailboxes boxes =>
    show ¬((boxes.unsubscribe consumer).inbox? consumer).isSome
    simp [Mailboxes.unsubscribe, Mailboxes.inbox?, lookup_filter_self]

theorem same_subscribe (queue : Queue α) (hne : consumer ≠ queue.subscribe.1) :
    queue.Same queue.subscribe.2 consumer := by
  cases queue with
  | ring r =>
    refine same_ring ?_ rfl rfl
    have hdiffer : (consumer == r.registered) = false := beq_false_of_ne hne
    show (r.cursors ++ [(r.registered, r.published)]).lookup consumer = _
    rw [List.lookup_append, List.lookup_cons, hdiffer, List.lookup_nil, Option.or_none]
  | mailboxes boxes =>
    refine same_mailboxes ?_
    have hdiffer : (consumer == boxes.registered) = false := beq_false_of_ne hne
    show (boxes.inboxes ++ [(boxes.registered, ({} : Inbox α))]).lookup consumer = _
    rw [List.lookup_append, List.lookup_cons, hdiffer, List.lookup_nil, Option.or_none]
    rfl

theorem same_stop (queue : Queue α) (consumer : ConsumerId) : queue.Same queue.stop consumer := by
  cases queue <;> exact ⟨.rfl, rfl⟩

theorem same_disconnect (queue : Queue α) (consumer : ConsumerId) :
    queue.Same queue.disconnect consumer :=
  ⟨isConsumer_disconnect queue consumer, unread_disconnect queue consumer⟩

/-- Somebody who has just registered has nothing to read. -/
theorem unread_subscribe (h : ¬queue.IsConsumer queue.subscribe.1) :
    queue.subscribe.2.unread queue.subscribe.1 = [] := by
  cases queue with
  | ring r =>
    have hnone : r.cursors.lookup r.registered = none := Option.not_isSome_iff_eq_none.1 h
    have hlookup : r.subscribe.2.cursors.lookup r.registered = some r.published := by
      show (r.cursors ++ [(r.registered, r.published)]).lookup r.registered = _
      rw [List.lookup_append, hnone]
      simp
    show r.subscribe.2.unread r.registered = []
    simp only [Ring.unread, hlookup]
    show (List.range' r.published (r.published - r.published)).filterMap _ = []
    rw [Nat.sub_self]
    rfl
  | mailboxes boxes =>
    have hnone : boxes.inboxes.lookup boxes.registered = none := 
      Option.not_isSome_iff_eq_none.1 h
    have hlookup : boxes.subscribe.2.inbox? boxes.registered = some {} := by
      show (boxes.inboxes ++ [(boxes.registered, ({} : Inbox α))]).lookup boxes.registered = _
      rw [List.lookup_append, hnone]
      simp
    show boxes.subscribe.2.unread boxes.registered = []
    simp only [Mailboxes.unread, hlookup]
    rfl

end CommitLog.Queue

namespace CommitLog.Queue.Ring

variable {α : Type} {r : Ring α} {values batch : List α} {consumer : ConsumerId} {cursor : Nat}

/-- The ring as it would be if it were open and nobody published. -/
def reopen (r : Ring α) : Ring α := { r with closed := false, claimed := r.published }

/-- A poll gives the value at the cursor, and moves it; at the end it says whether more may come. -/
theorem next_of_reopen (h : r.reopen.Records values)
    (hcursor : r.cursors.lookup consumer = some cursor) :
    (∃ value, r.next consumer
        = (.ready value, { r with cursors := advanceCursor consumer r.cursors }) ∧
      ({ r with cursors := advanceCursor consumer r.cursors } : Ring α).reopen.Records values) ∨
    r.next consumer = (if r.closed then .closed else .empty, r) ∧ r.unread consumer = [] := by
  have hpublished : r.published = values.length := h.published
  rcases Nat.lt_or_ge cursor values.length with hlt | hle
  · refine .inl ⟨values[cursor], ?_, h.advance hcursor hlt⟩
    have hvalue : r.value? cursor = some values[cursor] := by
      obtain ⟨-, hlag⟩ := h.cursor _ (mem_of_lookup hcursor)
      exact (h.slots cursor hlt hlag).trans (List.getElem?_eq_getElem hlt)
    simp only [next, hcursor, hpublished, if_neg (Nat.not_le.2 hlt), hvalue]
  · refine .inr ⟨?_, (h.unread hcursor).trans (List.drop_eq_nil_of_le hle)⟩
    simp only [next, hcursor, hpublished, if_pos hle]

/-- The gate is as far as all cursors and what is published. -/
theorem le_gate {low : Nat} (hpublished : low ≤ r.published)
    (hcursors : ∀ entry ∈ r.cursors, low ≤ entry.2) : low ≤ r.gate := by
  unfold gate
  generalize r.published = start at hpublished
  generalize r.cursors = cursors at hcursors
  induction cursors generalizing start with
  | nil => exact hpublished
  | cons entry rest ih =>
    exact ih (min start entry.2) (Nat.le_min.2 ⟨hpublished, hcursors entry List.mem_cons_self⟩)
      fun other hmem => hcursors other (List.mem_cons_of_mem _ hmem)

end CommitLog.Queue.Ring

namespace CommitLog.Queue.Blocking

variable {α : Type} {batch : List α} {start queue after : Queue α} {r : Ring α}
  {boxes : Mailboxes α} {stage next : Stage α} {served served' : List ConsumerId}
  {consumer other : ConsumerId}

/-! ## Where a queue stands -/

/-- Where a ring stands, and who has been served: nobody before the batch is published, and then
everybody who was a consumer at the start and still is one. -/
inductive RingAt (batch : List α) (start : Queue α) (r : Ring α) :
    Stage α → List ConsumerId → Prop where
  | arriving (settled : r.claimed = r.published) : RingAt batch start r .arriving []
  | entering (settled : r.claimed = r.published) : RingAt batch start r .entering []
  | reserving (settled : r.claimed = r.published) : RingAt batch start r .reserving []
  /-- The range that is claimed has room in front of all cursors. -/
  | filling {low : Nat} (claimed : r.claimed = r.published + batch.length)
      (low_le : low ≤ r.published) (cursors : ∀ entry ∈ r.cursors, low ≤ entry.2)
      (room : r.published + batch.length ≤ low + r.capacity) :
      RingAt batch start r (.filling r.published) []
  | refused {reason : Error} (settled : r.claimed = r.published) :
      RingAt batch start r (.returned (.error ⟨reason, batch⟩)) []
  | accepted {served : List ConsumerId} (settled : r.claimed = r.published)
      (all : batch = [] ∨ ∀ consumer, start.IsConsumer consumer →
        (ring r).IsConsumer consumer → consumer ∈ served) :
      RingAt batch start r (.returned (.ok ())) served

/-- Where mailboxes stand: while the list is held, the first mailboxes hold the batch, and
everybody who is not gone has a mailbox. -/
inductive BoxesAt (batch : List α) (start : Queue α) (boxes : Mailboxes α) :
    Stage α → List ConsumerId → Prop where
  | arriving (idle : boxes.busy = false)
      (connected : boxes.closed = false →
        ∀ consumer, (boxes.inbox? consumer).isSome → consumer ∈ boxes.connected) :
      BoxesAt batch start boxes .arriving []
  | handing {n : Nat} (busy : boxes.busy = true) (le : n ≤ boxes.connected.length)
      (connected : ∀ consumer, (boxes.inbox? consumer).isSome → consumer ∈ boxes.connected) :
      BoxesAt batch start boxes (.handing n) (boxes.connected.take n)
  | doubting {n : Nat} (busy : boxes.busy = true) (le : n ≤ boxes.connected.length)
      (connected : ∀ consumer, (boxes.inbox? consumer).isSome → consumer ∈ boxes.connected) :
      BoxesAt batch start boxes (.doubting n) (boxes.connected.take n)
  | refused (idle : boxes.busy = false) :
      BoxesAt batch start boxes (.returned (.error ⟨.closed, batch⟩)) []
  | brokenOff {served : List ConsumerId} (idle : boxes.busy = false) :
      BoxesAt batch start boxes (.returned (.error ⟨.closed, []⟩)) served
  | accepted {served : List ConsumerId} (idle : boxes.busy = false)
      (all : batch = [] ∨ ∀ consumer, start.IsConsumer consumer →
        (mailboxes boxes).IsConsumer consumer → consumer ∈ served) :
      BoxesAt batch start boxes (.returned (.ok ())) served

/-- Nobody has two mailboxes, and nobody is registered under a name that is still to be given. -/
structure Ordered (boxes : Mailboxes α) : Prop where
  nodup : boxes.connected.Nodup
  connected : ∀ consumer ∈ boxes.connected, consumer < boxes.registered
  registered : ∀ consumer, (boxes.inbox? consumer).isSome → consumer < boxes.registered

/-- A queue stands where a stage of the publication wants it. -/
def Fits (batch : List α) (start : Queue α) : Queue α → Stage α → List ConsumerId → Prop
  | ring r, stage, served => (∃ values, r.reopen.Records values) ∧ RingAt batch start r stage served
  | mailboxes boxes, stage, served => Ordered boxes ∧ BoxesAt batch start boxes stage served

/-- The batch does not come to a consumer any more if it has not come to it yet. -/
def Over : Queue α → Stage α → ConsumerId → Prop
  | ring r, stage, _ => r.closed = true ∧ stage.underway = false
  | mailboxes boxes, _, consumer => consumer ∉ boxes.connected

/-- What a consumer is to have of the batch. -/
def due (batch : List α) (served : List ConsumerId) (consumer : ConsumerId) : List α :=
  if consumer ∈ served then batch else []

theorem fits_start (h : start.Sound) (hidle : start.isBusy = false) (batch : List α) :
    Fits batch start start .arriving [] := by
  cases start with
  | ring r =>
    obtain ⟨values, h⟩ := h
    have hsettled : r.claimed = r.published := h.claimed.trans h.published.symm
    have hreopen : r.reopen = r := by
      have hopen := h.isOpen
      cases r
      simp_all [Ring.reopen]
    exact ⟨⟨values, hreopen.symm ▸ h⟩, .arriving hsettled⟩
  | mailboxes boxes =>
    have hconnected := Mailboxes.Sound.connected h
    exact ⟨⟨Mailboxes.Sound.nodup h, Mailboxes.Sound.registered h,
      fun consumer hthere => Mailboxes.Sound.registered h _ (hconnected consumer hthere)⟩,
      .arriving hidle fun _ => hconnected⟩

theorem Fits.lt (h : Fits batch start queue stage served) (hconsumer : queue.IsConsumer consumer) :
    consumer < queue.subscribe.1 := by
  cases queue with
  | ring r =>
    obtain ⟨⟨values, hrecords⟩, -⟩ := h
    obtain ⟨cursor, hcursor⟩ := Option.isSome_iff_exists.1 hconsumer
    exact hrecords.registered _ (mem_of_lookup hcursor)
  | mailboxes boxes => exact h.1.registered consumer hconsumer

/-! ## What a step of the producer brings -/

/-- A step of the producer brings the batch to those who have been served since, and nothing to
others. -/
structure Brings (batch : List α) (queue : Queue α) (stage : Stage α) (served : List ConsumerId)
    (after : Queue α) (next : Stage α) (served' : List ConsumerId) : Prop where
  isConsumer : ∀ consumer, after.IsConsumer consumer ↔ queue.IsConsumer consumer
  name : after.subscribe.1 = queue.subscribe.1
  subset : served ⊆ served'
  known : ∀ consumer ∈ served', consumer ∈ served ∨ consumer < queue.subscribe.1
  unread : ∀ consumer, queue.IsConsumer consumer → ∃ more,
    after.unread consumer = queue.unread consumer ++ more ∧
      due batch served' consumer = due batch served consumer ++ more
  late : ∀ consumer, Over queue stage consumer →
    Over after next consumer ∧ due batch served' consumer = due batch served consumer

/-- A step that serves nobody. -/
theorem brings_nothing (hsame : ∀ consumer, queue.Same after consumer)
    (hname : after.subscribe.1 = queue.subscribe.1)
    (hover : ∀ consumer, Over queue stage consumer → Over after next consumer) :
    Brings batch queue stage served after next served where
  isConsumer consumer := (hsame consumer).isConsumer
  name := hname
  subset := List.Subset.refl served
  known _ hmem := .inl hmem
  unread consumer _ := ⟨[], by rw [(hsame consumer).unread, List.append_nil],
    (List.append_nil _).symm⟩
  late consumer h := ⟨hover consumer h, rfl⟩

/-- Whoever has not been served yet is to have nothing so far. -/
theorem due_of_not_mem (h : consumer ∉ served) : due batch served consumer = [] := if_neg h

theorem due_of_mem (h : consumer ∈ served) : due batch served consumer = batch := if_pos h

theorem same_refl (queue : Queue α) (consumer : ConsumerId) : queue.Same queue consumer :=
  ⟨.rfl, rfl⟩

/-- A range that has room becomes visible to all consumers at once. -/
theorem brings_published {low : Nat} (hvalues : ∃ values, r.reopen.Records values)
    (hlow : low ≤ r.published) (hcursors : ∀ entry ∈ r.cursors, low ≤ entry.2)
    (hroom : r.published + batch.length ≤ low + r.capacity) :
    (∃ values, (r.fillAndPublish r.published batch).reopen.Records values) ∧
      Brings batch (ring r) (.filling r.published) [] (ring (r.fillAndPublish r.published batch))
        (.returned (.ok ())) ([] ++ r.cursors.map Prod.fst) := by
  obtain ⟨values, hrecords⟩ := hvalues
  have hgate : low ≤ r.reopen.gate := Ring.le_gate hlow hcursors
  have hafter : (r.fillAndPublish r.published batch).reopen.Records (values ++ batch) := by
    refine hrecords.fillAndPublish ?_
    show r.published + batch.length - r.reopen.gate ≤ r.capacity
    omega
  have hmem : ∀ {consumer}, (ring r).IsConsumer consumer → consumer ∈ r.cursors.map Prod.fst :=
    fun hconsumer => by
      obtain ⟨cursor, hcursor⟩ := Option.isSome_iff_exists.1 hconsumer
      exact List.mem_map_of_mem (mem_of_lookup hcursor)
  refine ⟨⟨_, hafter⟩, ⟨fun _ => .rfl, rfl, List.nil_subset _, fun consumer hserved => .inr ?_,
    fun consumer hconsumer => ⟨batch, ?_, ?_⟩, fun consumer hover => nomatch hover.2⟩⟩
  · obtain ⟨entry, hentry, rfl⟩ := List.mem_map.1 hserved
    exact hrecords.registered entry hentry
  · obtain ⟨cursor, hcursor⟩ := Option.isSome_iff_exists.1 hconsumer
    obtain ⟨hle, -⟩ := hrecords.cursor _ (mem_of_lookup hcursor)
    refine (hafter.unread hcursor).trans ?_
    rw [List.drop_append_of_le_length hle]
    exact congrArg (· ++ batch) (hrecords.unread hcursor).symm
  · rw [due_of_mem (List.mem_append_right _ (hmem hconsumer)), due_of_not_mem (by simp)]
    rfl

/-- The batch comes to the consumer of the next mailbox, and to nobody else. -/
theorem brings_handed (batch : List α) {n : Nat} (hordered : Ordered boxes) (hlt : n < boxes.connected.length)
    (hthere : (boxes.inbox? boxes.connected[n]).isSome) :
    Brings batch (mailboxes boxes) (.handing n) (boxes.connected.take n)
      (mailboxes (boxes.push batch boxes.connected[n])) (.handing (n + 1))
      (boxes.connected.take n ++ [boxes.connected[n]]) := by
  have hnew : boxes.connected[n] ∉ boxes.connected.take n := by
    have hnodup := hordered.nodup
    rw [← List.take_append_drop (n + 1) boxes.connected,
      List.take_succ_eq_append_getElem hlt] at hnodup
    intro hmem
    have hdisjoint := (List.nodup_append.1 (List.nodup_append.1 hnodup).1).2.2
    exact hdisjoint _ hmem _ (List.mem_singleton.2 rfl) rfl
  refine ⟨fun consumer => ?_, ?_, List.subset_append_left .., fun consumer hserved => ?_,
    fun consumer _ => ?_, fun consumer hover => ⟨?_, ?_⟩⟩
  · show ((boxes.push batch boxes.connected[n]).inbox? consumer).isSome ↔ _
    rw [Mailboxes.inbox?_push]
    split
    next => rw [Option.isSome_map]; rfl
    next => rfl
  · show (boxes.push batch boxes.connected[n]).registered = boxes.registered
    unfold Mailboxes.push
    split <;> rfl
  · rcases List.mem_append.1 hserved with hserved | hserved
    · exact .inl hserved
    · rw [List.mem_singleton.1 hserved]
      exact .inr (hordered.connected _ (List.getElem_mem hlt))
  · by_cases hsame : consumer = boxes.connected[n]
    · subst hsame
      refine ⟨batch, Mailboxes.unread_push_self hthere, ?_⟩
      rw [due_of_mem (List.mem_append_right _ List.mem_cons_self), due_of_not_mem hnew]
      rfl
    · refine ⟨[], ?_, ?_⟩
      · rw [List.append_nil]
        exact Mailboxes.unread_push_ne hsame
      · simp only [due, List.mem_append, List.mem_singleton, hsame, or_false, List.append_nil]
  · show consumer ∉ (boxes.push batch boxes.connected[n]).connected
    rw [Mailboxes.push_connected]
    exact hover
  · have hne : consumer ≠ boxes.connected[n] := fun hsame =>
      hover (hsame ▸ List.getElem_mem hlt)
    simp only [due, List.mem_append, List.mem_singleton, hne, or_false]

theorem Ordered.skipped {n : Nat} (h : Ordered boxes) (hlt : n < boxes.connected.length)
    (hgone : boxes.inbox? boxes.connected[n] = none) (hbusy : boxes.busy = true)
    (hconnected : ∀ consumer, (boxes.inbox? consumer).isSome → consumer ∈ boxes.connected) :
    Fits batch start (mailboxes { boxes with connected := Mailboxes.swapRemove boxes.connected n })
        (.handing n) (boxes.connected.take n) ∧
      Brings batch (mailboxes boxes) (.handing n) (boxes.connected.take n)
        (mailboxes { boxes with connected := Mailboxes.swapRemove boxes.connected n })
        (.handing n) (boxes.connected.take n) := by
  have hperm := Mailboxes.perm_swapRemove hlt
  have hmem : ∀ {consumer}, consumer ∈ Mailboxes.swapRemove boxes.connected n →
      consumer ∈ boxes.connected := fun hmem => hperm.mem_iff.1 (List.mem_cons_of_mem _ hmem)
  refine ⟨⟨⟨(List.nodup_cons.1 (hperm.nodup_iff.2 h.nodup)).2,
    fun consumer hthere => h.connected consumer (hmem hthere), h.registered⟩, ?_⟩,
    brings_nothing (fun consumer => same_mailboxes rfl) rfl fun consumer hover hthere =>
      hover (hmem hthere)⟩
  rw [← Mailboxes.take_swapRemove hlt]
  refine .handing hbusy ?_ fun consumer hthere => ?_
  · show n ≤ (Mailboxes.swapRemove boxes.connected n).length
    rw [Mailboxes.length_swapRemove]
    omega
  · have hwas := hperm.mem_iff.2 (hconnected consumer hthere)
    refine (List.mem_cons.1 hwas).resolve_left fun hsame => ?_
    have hstill : (boxes.inbox? consumer).isSome := hthere
    rw [hsame, hgone] at hstill
    cases hstill

theorem Ordered.handed {n : Nat} (h : Ordered boxes) (hlt : n < boxes.connected.length)
    (hthere : (boxes.inbox? boxes.connected[n]).isSome) (hbusy : boxes.busy = true)
    (hconnected : ∀ consumer, (boxes.inbox? consumer).isSome → consumer ∈ boxes.connected) :
    Fits batch start (mailboxes (boxes.push batch boxes.connected[n])) (.handing (n + 1))
        (boxes.connected.take n ++ [boxes.connected[n]]) ∧
      Brings batch (mailboxes boxes) (.handing n) (boxes.connected.take n)
        (mailboxes (boxes.push batch boxes.connected[n])) (.handing (n + 1))
        (boxes.connected.take n ++ [boxes.connected[n]]) := by
  have hbrings := brings_handed batch h hlt hthere
  have hwas : ∀ consumer, ((boxes.push batch boxes.connected[n]).inbox? consumer).isSome →
      (boxes.inbox? consumer).isSome := fun consumer => (hbrings.isConsumer consumer).1
  have hname : (boxes.push batch boxes.connected[n]).registered = boxes.registered := hbrings.name
  have hsame := Mailboxes.push_connected boxes batch boxes.connected[n]
  refine ⟨⟨⟨?_, fun consumer hmem => ?_, fun consumer hlive => ?_⟩, ?_⟩, hbrings⟩
  · rw [hsame]
    exact h.nodup
  · rw [hsame] at hmem
    rw [hname]
    exact h.connected consumer hmem
  · rw [hname]
    exact h.registered consumer (hwas consumer hlive)
  · have hbusy' : (boxes.push batch boxes.connected[n]).busy = true := by
      rw [← hbusy]
      unfold Mailboxes.push
      split <;> rfl
    have hat : BoxesAt batch start (boxes.push batch boxes.connected[n]) (.handing (n + 1)) _ :=
      .handing hbusy' (by rw [hsame]; exact hlt) fun consumer hlive => by
        rw [hsame]
        exact hconnected consumer (hwas consumer hlive)
    rwa [hsame, List.take_succ_eq_append_getElem hlt] at hat

/-- Whoever takes the list of mailboxes drops those whose consumers are gone. -/
theorem Ordered.begun (h : Ordered boxes)
    (hconnected : ∀ consumer, (boxes.inbox? consumer).isSome → consumer ∈ boxes.connected) :
    Fits batch start (mailboxes { boxes.prune with busy := true }) (.handing 0) [] ∧
      Brings batch (mailboxes boxes) .arriving [] (mailboxes { boxes.prune with busy := true })
        (.handing 0) [] := by
  refine ⟨⟨⟨h.nodup.filter _, fun consumer hmem => ?_, h.registered⟩, ?_⟩,
    brings_nothing (fun consumer => same_mailboxes rfl) rfl fun consumer hover hmem => ?_⟩
  · exact h.connected consumer (List.mem_filter.1 hmem).1
  · refine .handing rfl (Nat.zero_le _) fun consumer hthere => ?_
    exact List.mem_filter.2 ⟨hconnected consumer hthere, hthere⟩
  · exact hover (List.mem_filter.1 hmem).1

/-- The list of mailboxes is given back when the publication ends. -/
theorem Ordered.released {result : Except (Rejected α) Unit} (h : Ordered boxes)
    (hat : BoxesAt batch start { boxes with busy := false } (.returned result) served) :
    Fits batch start (mailboxes { boxes with busy := false }) (.returned result) served ∧
      Brings batch (mailboxes boxes) stage served (mailboxes { boxes with busy := false })
        (.returned result) served :=
  ⟨⟨⟨h.nodup, h.connected, h.registered⟩, hat⟩,
    brings_nothing (fun _ => same_mailboxes rfl) rfl fun _ hover => hover⟩

/-- A step that leaves mailboxes as they are serves nobody. -/
theorem Ordered.stays (h : Ordered boxes) (hat : BoxesAt batch start boxes next served) :
    Fits batch start (mailboxes boxes) next served ∧
      Brings batch (mailboxes boxes) stage served (mailboxes boxes) next served :=
  ⟨⟨h, hat⟩, brings_nothing (same_refl _) rfl fun _ hover => hover⟩

/-- A step that leaves a ring as it is serves nobody. -/
theorem RingAt.stays (h : RingAt batch start r next served)
    (hvalues : ∃ values, r.reopen.Records values)
    (hover : r.closed = true → next.underway = false) :
    Fits batch start (ring r) next served ∧
      Brings batch (ring r) stage served (ring r) next served :=
  ⟨⟨hvalues, h⟩, brings_nothing (same_refl _) rfl fun _ hpast => ⟨hpast.1, hover hpast.1⟩⟩

/-- A range is claimed where the gate leaves room for it. -/
theorem fits_claimed (hvalues : ∃ values, r.reopen.Records values)
    (hsettled : r.claimed = r.published)
    (hroom : r.claimed + batch.length - r.gate ≤ r.capacity) :
    Fits batch start (ring { r with claimed := r.claimed + batch.length })
      (.filling r.claimed) [] := by
  obtain ⟨hgate, hcursors⟩ := Ring.gate_le r
  refine ⟨hvalues, ?_⟩
  rw [hsettled] at hroom ⊢
  refine .filling rfl hgate hcursors ?_
  show r.published + batch.length ≤ r.gate + r.capacity
  omega

/-- At a ring all consumers are served at once, by the step that publishes the range. -/
theorem Fits.publishes_ring (h : Fits batch start (ring r) stage served)
    (hpublishes : Publishes batch (ring r) stage served after next served') :
    Fits batch start after next served' ∧
      Brings batch (ring r) stage served after next served' := by
  obtain ⟨hvalues, hat⟩ := h
  cases hpublishes with
  | nothing hempty =>
    cases hat with
    | arriving hsettled =>
      exact (RingAt.accepted hsettled (.inl hempty)).stays hvalues fun _ => rfl
  | refused =>
    cases hat with
    | arriving hsettled => exact (RingAt.refused hsettled).stays hvalues fun _ => rfl
  | admitted =>
    cases hat with
    | arriving hsettled => exact (RingAt.entering hsettled).stays hvalues fun _ => rfl
  | foundClosed =>
    cases hat with
    | entering hsettled => exact (RingAt.refused hsettled).stays hvalues fun _ => rfl
  | foundOpen hopen =>
    cases hat with
    | entering hsettled =>
      refine (RingAt.reserving hsettled).stays hvalues fun hclosed => ?_
      rw [hclosed] at hopen
      cases hopen
  | foundNoRoom =>
    cases hat with
    | reserving hsettled => exact (RingAt.entering hsettled).stays hvalues fun _ => rfl
  | claimed hroom =>
    cases hat with
    | reserving hsettled =>
      exact ⟨fits_claimed hvalues hsettled hroom,
        brings_nothing (fun _ => same_ring rfl rfl rfl) rfl fun _ hover => nomatch hover.2⟩
  | published =>
    cases hat with
    | filling hclaimed hlow hcursors hroom =>
      obtain ⟨hafter, hbrings⟩ := brings_published hvalues hlow hcursors hroom
      refine ⟨⟨hafter, .accepted hclaimed (.inr fun consumer _ hconsumer => ?_)⟩, hbrings⟩
      obtain ⟨cursor, hcursor⟩ := Option.isSome_iff_exists.1 hconsumer
      exact List.mem_append_right _ (List.mem_map_of_mem (mem_of_lookup hcursor))

/-- At mailboxes one consumer is served after another. -/
theorem Fits.publishes_mailboxes (h : Fits batch start (mailboxes boxes) stage served)
    (hpublishes : Publishes batch (mailboxes boxes) stage served after next served') :
    Fits batch start after next served' ∧
      Brings batch (mailboxes boxes) stage served after next served' := by
  obtain ⟨hordered, hat⟩ := h
  cases hpublishes with
  | nothing hempty =>
    cases hat with
    | arriving hidle => exact hordered.stays (.accepted hidle (.inl hempty))
  | turnedAway _ hidle =>
    cases hat with
    | arriving => exact hordered.stays (.refused hidle)
  | begun _ _ hopen =>
    cases hat with
    | arriving _ hconnected => exact hordered.begun (hconnected hopen)
  | skipped hlt hgone =>
    cases hat with
    | handing hbusy _ hconnected => exact hordered.skipped hlt hgone hbusy hconnected
  | handed hlt hthere =>
    cases hat with
    | handing hbusy _ hconnected => exact hordered.handed hlt hthere hbusy hconnected
  | foundFull =>
    cases hat with
    | handing hbusy hle hconnected => exact hordered.stays (.doubting hbusy hle hconnected)
  | persisted =>
    cases hat with
    | doubting hbusy hle hconnected => exact hordered.stays (.handing hbusy hle hconnected)
  | gaveUp => exact hordered.released (.brokenOff rfl)
  | finished hend =>
    cases hat with
    | handing _ _ hconnected =>
      refine hordered.released (.accepted rfl (.inr fun consumer _ hthere => ?_))
      rw [List.take_of_length_le hend]
      exact hconnected consumer hthere

/-- **The producer leaves the queue where its next stage wants it.** -/
theorem Fits.publishes (h : Fits batch start queue stage served)
    (hpublishes : Publishes batch queue stage served after next served') :
    Fits batch start after next served' ∧
      Brings batch queue stage served after next served' := by
  cases queue with
  | ring r => exact h.publishes_ring hpublishes
  | mailboxes boxes => exact h.publishes_mailboxes hpublishes

end CommitLog.Queue.Blocking
