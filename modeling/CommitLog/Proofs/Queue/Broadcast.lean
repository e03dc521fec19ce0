import CommitLog.Proofs.Queue.Closing

/-!
# What a queue is for

The broadcast that both backends are to carry out, told without slots, cursors or mailboxes. Of
every reader there is a row of all that was accepted since it registered, and the part of it that it
has seen. An accepted batch goes to the end of every row; a batch that is refused, or a transaction
that is not committed, goes nowhere. A reader is given the first value that it has not seen, and
when there is none it is told that there is none yet, or none any more.

The broadcast leaves one thing open: when there is no room. As long as nothing is refused for want
of room, it has no choice, and every request has one answer (`step_deterministic`).
-/

namespace CommitLog.Queue

/-- What a program asks of a queue. Consumers and transactions go by names. -/
inductive Request (α : Type) where
  | subscribe (name : String)
  /-- A consumer is dropped. -/
  | unsubscribe (name : String)
  | next (name : String)
  /-- A batch is published, for which there is room. -/
  | publish (batch : List α)
  | tryPublish (batch : List α)
  | begin (name : String) (n : Nat)
  | add (name : String) (value : α)
  | commit (name : String)
  | tryCommit (name : String)
  | discard (name : String)
  | close

/-- What a program is told. -/
inductive Answer (α : Type) where
  | done
  | polled (poll : Poll α)
  | published (result : Except (Rejected α) Unit)
  | begun (result : Except Error Unit)
  | added (result : Except Error Unit × Transaction α)

variable {α : Type}

/-- A refusal for want of room. -/
def Answer.IsShort : Answer α → Prop
  | published (.error rejected) => rejected.reason.IsShort
  | begun (.error reason) => reason.IsShort
  | _ => False

instance : DecidablePred (Answer.IsShort (α := α))
  | .published (.error rejected) => inferInstanceAs (Decidable rejected.reason.IsShort)
  | .begun (.error reason) => inferInstanceAs (Decidable reason.IsShort)
  | .published (.ok _) | .begun (.ok _) | .done | .polled _ | .added _ => isFalse id

/-- What is known of a consumer. -/
structure Reader (α : Type) where
  /-- All batches that were accepted since it registered, one behind the other. -/
  sent : List α := []
  /-- The values that it was given. -/
  seen : List α := []

/-- The state of a broadcast. -/
structure Broadcast (α : Type) where
  readers : String → Option (Reader α) := fun _ => none
  transactions : String → Option (Transaction α) := fun _ => none
  closed : Bool := false

namespace Broadcast

/-- A reader takes a name, or gives it back. -/
def setReader (spec : Broadcast α) (name : String) (reader : Option (Reader α)) : Broadcast α :=
  { spec with readers := fun other => if other = name then reader else spec.readers other }

/-- A transaction takes a name, or gives it back. -/
def setTransaction (spec : Broadcast α) (name : String) (tx : Option (Transaction α)) :
    Broadcast α :=
  { spec with transactions := fun other => if other = name then tx else spec.transactions other }

/-- A batch goes to the end of every row. -/
def accept (spec : Broadcast α) (batch : List α) : Broadcast α :=
  { spec with
    readers := fun name => (spec.readers name).map fun reader =>
      { reader with sent := reader.sent ++ batch } }

/-- A request that offers a batch, with what is left when it has been made. -/
inductive Offers (spec : Broadcast α) : Request α → List α → Broadcast α → Prop where
  | publish (batch : List α) : Offers spec (.publish batch) batch spec
  | tryPublish (batch : List α) : Offers spec (.tryPublish batch) batch spec
  | commit {name : String} {tx : Transaction α} (held : spec.transactions name = some tx) :
      Offers spec (.commit name) tx.values (spec.setTransaction name none)
  | tryCommit {name : String} {tx : Transaction α} (held : spec.transactions name = some tx) :
      Offers spec (.tryCommit name) tx.values (spec.setTransaction name none)

/-- How a broadcast answers a request that offers no batch. -/
inductive Serves (spec : Broadcast α) : Request α → Answer α → Broadcast α → Prop where
  | subscribed (name : String) : Serves spec (.subscribe name) .done (spec.setReader name (some {}))
  | dropped (name : String) : Serves spec (.unsubscribe name) .done (spec.setReader name none)
  /-- There is a value that the reader has not seen: it is given the first. -/
  | ready {name : String} {reader : Reader α} {value : α} {rest : List α}
      (known : spec.readers name = some reader)
      (unseen : reader.sent = reader.seen ++ value :: rest) :
      Serves spec (.next name) (.polled (.ready value))
        (spec.setReader name (some { reader with seen := reader.seen ++ [value] }))
  /-- There is none. -/
  | nothing {name : String} {reader : Reader α} (known : spec.readers name = some reader)
      (unseen : reader.sent = reader.seen) :
      Serves spec (.next name) (.polled (if spec.closed then .closed else .empty)) spec
  | begun {name : String} {n : Nat} (isOpen : spec.closed = false) :
      Serves spec (.begin name n) (.begun (.ok ())) (spec.setTransaction name (some ⟨n, []⟩))
  | notBegun {name : String} {n : Nat} {reason : Error}
      (cause : if spec.closed then reason = .closed else reason.IsShort) :
      Serves spec (.begin name n) (.begun (.error reason)) spec
  | added {name : String} {value : α} {tx : Transaction α}
      (held : spec.transactions name = some tx) (room : tx.values.length < tx.reserved) :
      Serves spec (.add name value) (.added (.ok (), { tx with values := tx.values ++ [value] }))
        (spec.setTransaction name (some { tx with values := tx.values ++ [value] }))
  | notAdded {name : String} {value : α} {tx : Transaction α}
      (held : spec.transactions name = some tx) (full : tx.reserved ≤ tx.values.length) :
      Serves spec (.add name value) (.added (.error (.transactionFull tx.reserved), tx)) spec
  | discarded (name : String) : Serves spec (.discard name) .done (spec.setTransaction name none)
  | closed : Serves spec .close .done { spec with closed := true }

/-- How a broadcast answers a request. -/
inductive Step (spec : Broadcast α) : Request α → Answer α → Broadcast α → Prop where
  | served {request : Request α} {answer : Answer α} {next : Broadcast α}
      (serves : spec.Serves request answer next) : Step spec request answer next
  | accepted {request : Request α} {batch : List α} {rest : Broadcast α}
      (offers : spec.Offers request batch rest) (taken : spec.closed = false ∨ batch = []) :
      Step spec request (.published (.ok ())) (rest.accept batch)
  | rejected {request : Request α} {batch : List α} {rest : Broadcast α} {reason : Error}
      (offers : spec.Offers request batch rest) (ne : batch ≠ [])
      (cause : if spec.closed then reason = .closed else reason.IsShort) :
      Step spec request (.published (.error ⟨reason, batch⟩)) rest

/-- A broadcast answers one request after another. -/
inductive Runs : Broadcast α → List (Request α) → List (Answer α) → Broadcast α → Prop where
  | nil (spec : Broadcast α) : Runs spec [] [] spec
  | cons {spec next last : Broadcast α} {request : Request α} {answer : Answer α}
      {requests : List (Request α)} {answers : List (Answer α)}
      (step : spec.Step request answer next) (rest : Runs next requests answers last) :
      Runs spec (request :: requests) (answer :: answers) last

variable {spec next other last : Broadcast α} {request : Request α} {answer answer' : Answer α}

/-! ## No choice -/

theorem offers_deterministic {batch batch' : List α} (h : spec.Offers request batch next)
    (h' : spec.Offers request batch' other) : batch = batch' ∧ next = other := by
  cases h with
  | publish => cases h' with | publish => exact ⟨rfl, rfl⟩
  | tryPublish => cases h' with | tryPublish => exact ⟨rfl, rfl⟩
  | commit held =>
    cases h' with
    | commit held' =>
      obtain rfl := Option.some.inj (held.symm.trans held')
      exact ⟨rfl, rfl⟩
  | tryCommit held =>
    cases h' with
    | tryCommit held' =>
      obtain rfl := Option.some.inj (held.symm.trans held')
      exact ⟨rfl, rfl⟩

theorem not_offers_of_serves {batch : List α} {rest : Broadcast α}
    (h : spec.Serves request answer next) : ¬spec.Offers request batch rest := by
  intro hoffers
  cases h <;> cases hoffers

theorem serves_deterministic (h : spec.Serves request answer next)
    (h' : spec.Serves request answer' other) (hroom : ¬answer.IsShort)
    (hroom' : ¬answer'.IsShort) : answer = answer' ∧ next = other := by
  cases h with
  | subscribed => cases h' with | subscribed => exact ⟨rfl, rfl⟩
  | dropped => cases h' with | dropped => exact ⟨rfl, rfl⟩
  | ready hknown hunseen =>
    cases h' with
    | ready hknown' hunseen' =>
      obtain rfl := Option.some.inj (hknown.symm.trans hknown')
      obtain ⟨rfl, -⟩ := List.cons.inj (List.append_cancel_left (hunseen.symm.trans hunseen'))
      exact ⟨rfl, rfl⟩
    | nothing hknown' hnone =>
      obtain rfl := Option.some.inj (hknown.symm.trans hknown')
      simp [hnone] at hunseen
  | nothing hknown hnone =>
    cases h' with
    | ready hknown' hunseen =>
      obtain rfl := Option.some.inj (hknown.symm.trans hknown')
      simp [hnone] at hunseen
    | nothing => exact ⟨rfl, rfl⟩
  | begun hopen =>
    cases h' with
    | begun => exact ⟨rfl, rfl⟩
    | notBegun hcause =>
      rw [hopen] at hcause
      exact absurd hcause hroom'
  | notBegun hcause =>
    cases hclosed : spec.closed with
    | false =>
      rw [hclosed] at hcause
      exact absurd hcause hroom
    | true =>
      cases h' with
      | begun hopen => simp [hopen] at hclosed
      | notBegun hcause' =>
        rw [hclosed] at hcause hcause'
        obtain rfl := hcause
        obtain rfl := hcause'
        exact ⟨rfl, rfl⟩
  | added hheld hspace =>
    cases h' with
    | added hheld' =>
      obtain rfl := Option.some.inj (hheld.symm.trans hheld')
      exact ⟨rfl, rfl⟩
    | notAdded hheld' hfull =>
      obtain rfl := Option.some.inj (hheld.symm.trans hheld')
      exact absurd hspace (Nat.not_lt.2 hfull)
  | notAdded hheld hfull =>
    cases h' with
    | added hheld' hspace =>
      obtain rfl := Option.some.inj (hheld.symm.trans hheld')
      exact absurd hspace (Nat.not_lt.2 hfull)
    | notAdded hheld' =>
      obtain rfl := Option.some.inj (hheld.symm.trans hheld')
      exact ⟨rfl, rfl⟩
  | discarded => cases h' with | discarded => exact ⟨rfl, rfl⟩
  | closed => cases h' with | closed => exact ⟨rfl, rfl⟩

/-- Whether a batch is taken is settled unless room is short. -/
theorem offered_deterministic {batch : List α} {rest : Broadcast α}
    (hoffers : spec.Offers request batch rest) (h : spec.Step request answer next)
    (hroom : ¬answer.IsShort) :
    (answer = .published (.ok ()) ∧ next = rest.accept batch ∧
        (spec.closed = false ∨ batch = [])) ∨
      answer = .published (.error ⟨.closed, batch⟩) ∧ next = rest ∧ spec.closed = true ∧
        batch ≠ [] := by
  cases h with
  | served hserves => exact absurd hoffers (not_offers_of_serves hserves)
  | accepted hoffers' htaken =>
    obtain ⟨rfl, rfl⟩ := offers_deterministic hoffers hoffers'
    exact Or.inl ⟨rfl, rfl, htaken⟩
  | rejected hoffers' hne hcause =>
    obtain ⟨rfl, rfl⟩ := offers_deterministic hoffers hoffers'
    cases hclosed : spec.closed with
    | false =>
      rw [hclosed] at hcause
      exact absurd hcause hroom
    | true =>
      rw [hclosed] at hcause
      obtain rfl := hcause
      exact Or.inr ⟨rfl, rfl, rfl, hne⟩

/-- **A broadcast that never runs out of room has one answer to every request.** -/
theorem step_deterministic (h : spec.Step request answer next)
    (h' : spec.Step request answer' other) (hroom : ¬answer.IsShort) (hroom' : ¬answer'.IsShort) :
    answer = answer' ∧ next = other := by
  have hoffered : ∀ {batch : List α} {rest : Broadcast α}, spec.Offers request batch rest →
      answer = answer' ∧ next = other := by
    intro batch rest hoffers
    rcases offered_deterministic hoffers h hroom with
      ⟨rfl, rfl, htaken⟩ | ⟨rfl, rfl, hclosed, hne⟩
    · rcases offered_deterministic hoffers h' hroom' with ⟨rfl, rfl, -⟩ | ⟨-, -, hclosed, hne⟩
      · exact ⟨rfl, rfl⟩
      · exact absurd htaken (by simp [hclosed, hne])
    · rcases offered_deterministic hoffers h' hroom' with ⟨-, -, htaken⟩ | ⟨rfl, rfl, -⟩
      · exact absurd htaken (by simp [hclosed, hne])
      · exact ⟨rfl, rfl⟩
  cases h with
  | accepted hoffers => exact hoffered hoffers
  | rejected hoffers => exact hoffered hoffers
  | served hserves =>
    cases h' with
    | accepted hoffers => exact hoffered hoffers
    | rejected hoffers => exact hoffered hoffers
    | served hserves' => exact serves_deterministic hserves hserves' hroom hroom'

/-- So two runs of the same requests do not differ. -/
theorem runs_deterministic {requests : List (Request α)} {answers answers' : List (Answer α)}
    (h : Runs spec requests answers last) (h' : Runs spec requests answers' other)
    (hroom : ∀ answer ∈ answers, ¬answer.IsShort) (hroom' : ∀ answer ∈ answers', ¬answer.IsShort) :
    answers = answers' ∧ last = other := by
  induction h generalizing answers' other with
  | nil => cases h' with | nil => exact ⟨rfl, rfl⟩
  | cons step rest ih =>
    cases h' with
    | cons step' rest' =>
      obtain ⟨rfl, rfl⟩ := step_deterministic step step' (hroom _ List.mem_cons_self)
        (hroom' _ List.mem_cons_self)
      obtain ⟨rfl, rfl⟩ := ih rest' (fun a ha => hroom a (List.mem_cons_of_mem _ ha))
        fun a ha => hroom' a (List.mem_cons_of_mem _ ha)
      exact ⟨rfl, rfl⟩

end Broadcast

end CommitLog.Queue
