import CommitLog.Queue.Ring
import Mathlib.Logic.Function.Basic
import Mathlib.Logic.Relation

/-!
# A ring under contention

The operations of a ring are not atomic. A producer looks at the ring a word at a time, claims its
range by a compare-and-swap, fills one slot after another and waits for its turn to publish;
consumers poll, register and leave in the middle of this. Here every access to shared memory is a
step of its own, and the steps of all parties come in any order.

`Stage` says which access a party makes next, with what it remembers from earlier ones. The steps
fall into three kinds: those that only look at the ring (`Looks`), those that acquire or release
the lock on the list of cursors (`Locks`), and those that write to the ring, one constructor of
`Step` each.

An access sees all that were made before it; what weaker orders of memory allow is left out.
Numbers of values are not bounded. Where a gate has moved past the end of the range that a
producer asks for, the distance between them has no value: the producer may be told that there is
no room, or fail.
-/

namespace CommitLog.Queue.Contention

/-! ## Parties and their stages -/

/-- Who takes steps: a call of the queue, or a consumer with the calls of its owner. -/
inductive Party where
  | caller (id : Nat)
  | consumer (id : ConsumerId)
deriving DecidableEq

/-- The lock on the list of cursors: held by some to read, or by one to write. -/
inductive Lock where
  | shared (holders : List Party)
  | exclusive (holder : Party)

/-- A batch that is to be published. -/
structure Offer (α : Type) where
  batch : List α
  batch_ne : batch ≠ []
  /-- Whether the producer waits for room, or takes a refusal. -/
  waits : Bool

/-- How many numbers the batch takes. -/
def Offer.length {α : Type} (offer : Offer α) : Nat := offer.batch.length

/-- What an operation came to. -/
inductive Answer (α : Type) where
  | published (result : Except (Rejected α) Unit)
  | registered (consumer : ConsumerId)
  | counted (consumers : Nat)
  | closed
  | isClosed (closed : Bool)
  | polled (poll : Poll α)
  /-- The operation was broken off. -/
  | failed

/-- Which access a party makes next. -/
inductive Stage (α : Type) where
  /-- There is no such consumer, or not any more. -/
  | absent
  | resting (answer : Option (Answer α))
  /-- Looks whether the queue takes batches of this length at all. -/
  | checking (offer : Offer α)
  /-- Looks whether the queue is closed, before each attempt to claim a range. -/
  | entering (offer : Offer α)
  /-- Loads the end of what is claimed. -/
  | reserving (offer : Offer α)
  /-- Loads the end of what is published, which the gate begins with. -/
  | gating (offer : Offer α) (start : Nat)
  /-- Acquires the list of cursors to read. -/
  | listing (offer : Offer α) (start gate : Nat)
  /-- Loads the cursors that are left, one by one; then releases the list. -/
  | scanning (offer : Offer α) (start gate : Nat) (left : List ConsumerId)
  /-- Holds the end of its range against the gate. -/
  | weighing (offer : Offer α) (start gate : Nat)
  /-- Claims its range, if nobody else has claimed one in between. -/
  | swapping (offer : Offer α) (start gate : Nat)
  /-- Writes the slot of the first value that is left. -/
  | filling (start : Nat) (filled left : List α)
  /-- Loads the end of what is published until that is where its range starts. -/
  | awaiting (start : Nat) (batch : List α)
  /-- Stores the end of its range as the end of what is published. -/
  | publishing (start : Nat) (batch : List α)
  /-- Acquires the list of cursors to add one. -/
  | enlisting
  /-- Loads the end of what is published, where the new cursor is to start. -/
  | observing
  /-- Adds the cursor to the list. -/
  | enrolling (cursor : Nat)
  /-- Releases the list, and hands the consumer out. -/
  | enrolled (consumer : ConsumerId)
  /-- Acquires the list of cursors to count it. -/
  | counting
  /-- Releases the list, having counted it. -/
  | tallying
  /-- Stores that the queue is closed. -/
  | closing
  /-- Loads whether the queue is closed. -/
  | inquiring
  /-- Loads its own cursor. -/
  | polling
  /-- Loads the end of what is published, to see whether there is a value of its number. -/
  | comparing (number : Nat)
  /-- Loads whether the queue is closed, having seen everything. -/
  | ending
  /-- Takes a copy of the value in the slot of its number. -/
  | reading (number : Nat)
  /-- Stores its cursor, one further. -/
  | moving (number : Nat) (found : Option α)
  /-- Acquires the list of cursors to take its own from it. -/
  | leaving
  /-- Takes its cursor from the list. -/
  | delisting
  /-- Releases the list. -/
  | delisted

namespace Stage

variable {α : Type}

/-- Whether the list of cursors is held to read. -/
def Lists : Stage α → Prop
  | scanning .. | tallying => True
  | _ => False

/-- Whether the list of cursors is held to write. -/
def Edits : Stage α → Prop
  | observing | enrolling _ | enrolled _ | delisting | delisted => True
  | _ => False

/-- The range that is claimed and not published yet: where it starts, and its batch. -/
def range? : Stage α → Option (Nat × List α)
  | filling start filled left => some (start, filled ++ left)
  | awaiting start batch | publishing start batch => some (start, batch)
  | _ => none

/-- The number of the value whose slot is to be written next. -/
def writes? : Stage α → Option Nat
  | filling start filled (_ :: _) => some (start + filled.length)
  | _ => none

/-- The gate that was computed, while a claim may still rely on it. -/
def gate? : Stage α → Option Nat
  | weighing _ _ gate | swapping _ _ gate => some gate
  | _ => none

end Stage

/-! ## Steps that only look -/

variable {α : Type}

/-- Where a producer goes that was told that there is no room. -/
def Offer.whenFull (offer : Offer α) : Stage α :=
  if offer.waits then .entering offer
  else .resting (some (.published (.error ⟨.full, offer.batch⟩)))

/-- Steps that leave everything as it is but the stage of the party. -/
inductive Looks (ring : Ring α) : Party → Stage α → Stage α → Prop where
  | offered {id : Nat} {answer : Option (Answer α)} (offer : Offer α) :
      Looks ring (.caller id) (.resting answer) (.checking offer)
  /-- A batch without values is taken without a look at the ring. -/
  | offeredNothing {id : Nat} {answer : Option (Answer α)} :
      Looks ring (.caller id) (.resting answer) (.resting (some (.published (.ok ()))))
  | refused {id : Nat} {offer : Offer α} {reason : Error}
      (refusal : ring.refusal? offer.length = some reason) :
      Looks ring (.caller id) (.checking offer)
        (.resting (some (.published (.error ⟨reason, offer.batch⟩))))
  | admitted {id : Nat} {offer : Offer α} (refusal : ring.refusal? offer.length = none) :
      Looks ring (.caller id) (.checking offer) (.entering offer)
  | foundClosed {id : Nat} {offer : Offer α} (isClosed : ring.closed = true) :
      Looks ring (.caller id) (.entering offer)
        (.resting (some (.published (.error ⟨.closed, offer.batch⟩))))
  | foundOpen {id : Nat} {offer : Offer α} (isOpen : ring.closed = false) :
      Looks ring (.caller id) (.entering offer) (.reserving offer)
  | reserved {id : Nat} {offer : Offer α} :
      Looks ring (.caller id) (.reserving offer) (.gating offer ring.claimed)
  | gated {id : Nat} {offer : Offer α} {start : Nat} :
      Looks ring (.caller id) (.gating offer start) (.listing offer start ring.published)
  | scanned {id : Nat} {offer : Offer α} {start gate cursor : Nat} {consumer : ConsumerId}
      {left : List ConsumerId} (loaded : ring.cursors.lookup consumer = some cursor) :
      Looks ring (.caller id) (.scanning offer start gate (consumer :: left))
        (.scanning offer start (min gate cursor) left)
  | foundRoom {id : Nat} {offer : Offer α} {start gate : Nat} (le : gate ≤ start + offer.length)
      (room : start + offer.length - gate ≤ ring.capacity) :
      Looks ring (.caller id) (.weighing offer start gate) (.swapping offer start gate)
  | foundFull {id : Nat} {offer : Offer α} {start gate : Nat} (le : gate ≤ start + offer.length)
      (full : ring.capacity < start + offer.length - gate) :
      Looks ring (.caller id) (.weighing offer start gate) offer.whenFull
  /-- The gate is past the range: the distance wraps around, which reads as no room. -/
  | wrapped {id : Nat} {offer : Offer α} {start gate : Nat} (lt : start + offer.length < gate) :
      Looks ring (.caller id) (.weighing offer start gate) offer.whenFull
  /-- The gate is past the range: computing the distance fails. -/
  | overflowed {id : Nat} {offer : Offer α} {start gate : Nat}
      (lt : start + offer.length < gate) :
      Looks ring (.caller id) (.weighing offer start gate) (.resting (some .failed))
  /-- The swap does not come about. It may fail although nobody else has claimed a range. -/
  | lost {id : Nat} {offer : Offer α} {start gate : Nat} :
      Looks ring (.caller id) (.swapping offer start gate) (.entering offer)
  | filledAll {id : Nat} {start : Nat} {batch : List α} :
      Looks ring (.caller id) (.filling start batch []) (.awaiting start batch)
  | foundTurn {id : Nat} {start : Nat} {batch : List α} (turn : ring.published = start) :
      Looks ring (.caller id) (.awaiting start batch) (.publishing start batch)
  | subscribes {id : Nat} {answer : Option (Answer α)} :
      Looks ring (.caller id) (.resting answer) .enlisting
  | observed {id : Nat} : Looks ring (.caller id) .observing (.enrolling ring.published)
  | counts {id : Nat} {answer : Option (Answer α)} :
      Looks ring (.caller id) (.resting answer) .counting
  | closes {id : Nat} {answer : Option (Answer α)} :
      Looks ring (.caller id) (.resting answer) .closing
  | inquires {id : Nat} {answer : Option (Answer α)} :
      Looks ring (.caller id) (.resting answer) .inquiring
  | inquired {id : Nat} :
      Looks ring (.caller id) .inquiring (.resting (some (.isClosed ring.closed)))
  | polls {id : ConsumerId} {answer : Option (Answer α)} :
      Looks ring (.consumer id) (.resting answer) .polling
  | loaded {id : ConsumerId} {number : Nat} (cursor : ring.cursors.lookup id = some number) :
      Looks ring (.consumer id) .polling (.comparing number)
  | foundValue {id : ConsumerId} {number : Nat} (lt : number < ring.published) :
      Looks ring (.consumer id) (.comparing number) (.reading number)
  | foundNothing {id : ConsumerId} {number : Nat} (le : ring.published ≤ number) :
      Looks ring (.consumer id) (.comparing number) .ending
  | ended {id : ConsumerId} :
      Looks ring (.consumer id) .ending
        (.resting (some (.polled (if ring.closed then .closed else .empty))))
  | copied {id : ConsumerId} {number : Nat} :
      Looks ring (.consumer id) (.reading number) (.moving number (ring.value? number))
  | leaves {id : ConsumerId} {answer : Option (Answer α)} :
      Looks ring (.consumer id) (.resting answer) .leaving

/-! ## Steps at the lock -/

/-- Steps that acquire or release the list of cursors. To write, nobody else may hold it. -/
inductive Locks (ring : Ring α) : Party → Lock → Stage α → Lock → Stage α → Prop where
  | listed {party : Party} {holders : List Party} {offer : Offer α} {start gate : Nat} :
      Locks ring party (.shared holders) (.listing offer start gate) (.shared (party :: holders))
        (.scanning offer start gate (ring.cursors.map Prod.fst))
  | scannedAll {party : Party} {holders : List Party} {offer : Offer α} {start gate : Nat} :
      Locks ring party (.shared holders) (.scanning offer start gate [])
        (.shared (holders.erase party)) (.weighing offer start gate)
  | enlisted {party : Party} :
      Locks ring party (.shared []) .enlisting (.exclusive party) .observing
  | counted {party : Party} {holders : List Party} :
      Locks ring party (.shared holders) .counting (.shared (party :: holders)) .tallying
  | tallied {party : Party} {holders : List Party} :
      Locks ring party (.shared holders) .tallying (.shared (holders.erase party))
        (.resting (some (.counted ring.consumerCount)))
  | left {party : Party} :
      Locks ring party (.shared []) .leaving (.exclusive party) .delisting
  | gone {party : Party} :
      Locks ring party (.exclusive party) .delisted (.shared []) .absent

/-! ## Writes -/

/-- Stores a cursor in place of the one before. -/
def storeCursor (consumer : ConsumerId) (cursor : Nat) :
    List (ConsumerId × Nat) → List (ConsumerId × Nat)
  | [] => []
  | (id, old) :: rest =>
    if id = consumer then (id, cursor) :: rest else (id, old) :: storeCursor consumer cursor rest

/-- A ring whose claimed numbers end at `stop`. -/
def claimTo (ring : Ring α) (stop : Nat) : Ring α := { ring with claimed := stop }

/-- A ring with a value in the slot of a number. -/
def write (ring : Ring α) (number : Nat) (value : α) : Ring α :=
  { ring with
    slots := ring.slots.setIfInBounds (number % ring.slots.size) (some value)
    slots_pos := by rw [Array.size_setIfInBounds]; exact ring.slots_pos }

/-- A ring whose published numbers end at `stop`. -/
def publishTo (ring : Ring α) (stop : Nat) : Ring α := { ring with published := stop }

/-- A ring with one more cursor in its list. -/
def enroll (ring : Ring α) (cursor : Nat) : Ring α :=
  { ring with
    cursors := ring.cursors ++ [(ring.registered, cursor)]
    registered := ring.registered + 1 }

/-- A ring where a consumer reads the value of this number next. -/
def moveTo (ring : Ring α) (consumer : ConsumerId) (cursor : Nat) : Ring α :=
  { ring with cursors := storeCursor consumer cursor ring.cursors }

/-! ## The machine -/

/-- A ring with all who use it. -/
structure Machine (α : Type) where
  ring : Ring α
  lock : Lock := .shared []
  stages : Party → Stage α
  /-- The batches that were granted a range so far, in order. No step looks at them. -/
  granted : List (List α) := []

/-- What a consumer is told about the copy that it took. -/
def told : Option α → Poll α
  | some value => .ready value
  | none => .empty

namespace Machine

/-- An empty ring that nobody uses yet. -/
def start (capacity : Nat) : Machine α where
  ring := .ofCapacity capacity
  stages
    | .caller _ => .resting none
    | .consumer _ => .absent

/-- A party at another stage. -/
def goto (machine : Machine α) (party : Party) (stage : Stage α) : Machine α :=
  { machine with stages := Function.update machine.stages party stage }

/-- The value of a number, as the producer that was granted the number has it. -/
def claimed? (machine : Machine α) (number : Nat) : Option α := machine.granted.flatten[number]?

/-- The slot of a number. -/
def slotOf (machine : Machine α) (number : Nat) : Nat := number % machine.ring.capacity

end Machine

open Machine in
/-- One access to shared memory. -/
inductive Step (machine : Machine α) : Machine α → Prop where
  | looks {party : Party} {stage : Stage α}
      (looks : Looks machine.ring party (machine.stages party) stage) :
      Step machine (machine.goto party stage)
  | locks {party : Party} {lock : Lock} {stage : Stage α}
      (locks : Locks machine.ring party machine.lock (machine.stages party) lock stage) :
      Step machine ({ machine with lock }.goto party stage)
  /-- The swap that claims a range. -/
  | granted {id : Nat} {offer : Offer α} {start gate : Nat}
      (stage : machine.stages (.caller id) = .swapping offer start gate)
      (same : machine.ring.claimed = start) :
      Step machine ({ machine with
        ring := claimTo machine.ring (start + offer.length)
        granted := machine.granted ++ [offer.batch] }.goto (.caller id)
          (.filling start [] offer.batch))
  /-- A slot is written. -/
  | filled {id start : Nat} {filled left : List α} {value : α}
      (stage : machine.stages (.caller id) = .filling start filled (value :: left)) :
      Step machine
        ({ machine with ring := write machine.ring (start + filled.length) value }.goto
          (.caller id) (.filling start (filled ++ [value]) left))
  /-- A range is published. -/
  | published {id start : Nat} {batch : List α}
      (stage : machine.stages (.caller id) = .publishing start batch) :
      Step machine ({ machine with ring := publishTo machine.ring (start + batch.length) }.goto
        (.caller id) (.resting (some (.published (.ok ())))))
  /-- A cursor is added to the list. -/
  | enrolled {id cursor : Nat} (stage : machine.stages (.caller id) = .enrolling cursor) :
      Step machine ({ machine with ring := enroll machine.ring cursor }.goto (.caller id)
        (.enrolled machine.ring.registered))
  /-- The list is released, and there is one more consumer. -/
  | subscribed {id : Nat} {consumer : ConsumerId}
      (stage : machine.stages (.caller id) = .enrolled consumer)
      (held : machine.lock = .exclusive (.caller id)) :
      Step machine (({ machine with lock := .shared [] }.goto (.caller id)
        (.resting (some (.registered consumer)))).goto (.consumer consumer) (.resting none))
  | closed {id : Nat} (stage : machine.stages (.caller id) = .closing) :
      Step machine ({ machine with ring := machine.ring.close }.goto (.caller id)
        (.resting (some .closed)))
  /-- A cursor is stored, one further. -/
  | moved {id : ConsumerId} {number : Nat} {found : Option α}
      (stage : machine.stages (.consumer id) = .moving number found) :
      Step machine ({ machine with ring := moveTo machine.ring id (number + 1) }.goto
        (.consumer id) (.resting (some (.polled (told found)))))
  /-- A cursor is taken from the list. -/
  | delisted {id : ConsumerId} (stage : machine.stages (.consumer id) = .delisting) :
      Step machine ({ machine with ring := machine.ring.unsubscribe id }.goto (.consumer id)
        .delisted)

/-- What an empty ring can come to, in whatever order its parties take their steps. -/
inductive Reachable (capacity : Nat) : Machine α → Prop where
  | start : Reachable capacity (.start capacity)
  | step {machine next : Machine α} (h : Reachable capacity machine) (hstep : Step machine next) :
      Reachable capacity next

/-- One state of the machine is followed by another. -/
abbrev Leads : Machine α → Machine α → Prop := Relation.ReflTransGen Step

theorem Reachable.leads {capacity : Nat} {machine next : Machine α}
    (h : Reachable capacity machine) (hleads : Leads machine next) : Reachable capacity next := by
  induction hleads with
  | refl => exact h
  | tail _ hstep ih => exact ih.step hstep

end CommitLog.Queue.Contention
