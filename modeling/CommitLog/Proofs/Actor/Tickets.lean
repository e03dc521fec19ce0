import CommitLog.Proofs.Actor.Machine
import Mathlib.Data.List.Nodup
import Mathlib.Data.List.Perm.Basic

/-!
# Where submissions are

A submission waits in front of the mailbox, lies in it, is in the hands of the worker, or has its
answer; it never is in two of these places, and never comes back to one (`Tidy`). What the worker
has taken from the mailbox comes before what is still in it, and of that it begins the submissions
in the order in which they were put there (`InOrder`).
-/

namespace CommitLog.Actor.Contention

variable {ρ υ α : Type} {behaviour : Behaviour ρ υ α} {machine next : Machine ρ υ α}
  {tickets : List Ticket} {calls : List (Envelope υ)} {callers : Ticket → Caller υ α}
  {enqueued : List (Ticket × Envelope υ)} {ticket : Ticket} {stage : Caller υ α}
  {envelope : Envelope υ}

/-! ## One place for each -/

/-- Where submissions are: `tickets` has those that are in the mailbox, with the worker or
answered. -/
structure Tidy (tickets : List Ticket) (calls : List (Envelope υ)) (callers : Ticket → Caller υ α)
    (enqueued : List (Ticket × Envelope υ)) : Prop where
  distinct : tickets.Nodup
  known : ∀ ticket ∈ tickets, ticket < calls.length
  /-- What a caller has still to put into the mailbox is nowhere else. -/
  asks : ∀ ticket envelope, (callers ticket).asks? = some envelope →
    ticket ∉ tickets ∧ calls[ticket]? = some envelope
  /-- What was put into the mailbox was put there once. -/
  once : (enqueued.map Prod.fst).Nodup
  kept : ∀ submission ∈ enqueued,
    submission.1 ∈ tickets ∧ calls[submission.1]? = some submission.2

namespace Tidy

variable (h : Tidy tickets calls callers enqueued)

include h

/-- A submission goes from one place to another. -/
theorem perm {tickets' : List Ticket} (hperm : tickets'.Perm tickets) :
    Tidy tickets' calls callers enqueued where
  distinct := hperm.nodup_iff.2 h.distinct
  known ticket hticket := h.known ticket (hperm.mem_iff.1 hticket)
  asks ticket envelope hasks :=
    let ⟨hout, hcall⟩ := h.asks ticket envelope hasks
    ⟨fun hticket => hout (hperm.mem_iff.1 hticket), hcall⟩
  once := h.once
  kept submission hsubmission :=
    let ⟨hin, hcall⟩ := h.kept submission hsubmission
    ⟨hperm.mem_iff.2 hin, hcall⟩

/-- A caller goes on, with the submission that it had or without one. -/
theorem goto (hstage : ∀ envelope, stage.asks? = some envelope →
      (callers ticket).asks? = some envelope) :
    Tidy tickets calls (Function.update callers ticket stage) enqueued where
  distinct := h.distinct
  known := h.known
  asks other envelope hasks := by
    by_cases hother : other = ticket
    · subst hother
      rw [Function.update_self] at hasks
      exact h.asks other envelope (hstage envelope hasks)
    · rw [Function.update_of_ne hother] at hasks
      exact h.asks other envelope hasks
  once := h.once
  kept := h.kept

/-- A new call has a ticket of its own. -/
theorem arrives (hstage : ∀ other, stage.asks? = some other → other = envelope) :
    Tidy tickets (calls ++ [envelope]) (Function.update callers calls.length stage) enqueued where
  distinct := h.distinct
  known ticket hticket := by
    rw [List.length_append]
    exact Nat.lt_add_right _ (h.known ticket hticket)
  asks other found hasks := by
    by_cases hother : other = calls.length
    · subst hother
      rw [Function.update_self] at hasks
      rw [hstage found hasks, List.getElem?_concat_length]
      exact ⟨fun hticket => Nat.lt_irrefl _ (h.known _ hticket), rfl⟩
    · rw [Function.update_of_ne hother] at hasks
      obtain ⟨hout, hcall⟩ := h.asks other found hasks
      exact ⟨hout, by rw [List.getElem?_append_left (List.getElem?_eq_some_iff.1 hcall).1, hcall]⟩
  once := h.once
  kept submission hsubmission := by
    obtain ⟨hin, hcall⟩ := h.kept submission hsubmission
    rw [List.getElem?_append_left (List.getElem?_eq_some_iff.1 hcall).1]
    exact ⟨hin, hcall⟩

section Joins

variable (hasks : (callers ticket).asks? = some envelope)

include hasks

/-- A submission leaves its caller: it is answered, or put into the mailbox. -/
theorem joins (hstage : stage.asks? = none) :
    Tidy (ticket :: tickets) calls (Function.update callers ticket stage) enqueued where
  distinct := List.nodup_cons.2 ⟨(h.asks ticket envelope hasks).1, h.distinct⟩
  known other hother := by
    rcases List.mem_cons.1 hother with rfl | hother
    · exact (List.getElem?_eq_some_iff.1 (h.asks other envelope hasks).2).1
    · exact h.known other hother
  asks other found hfound := by
    by_cases hother : other = ticket
    · subst hother
      rw [Function.update_self, hstage] at hfound
      cases hfound
    · rw [Function.update_of_ne hother] at hfound
      obtain ⟨hout, hcall⟩ := h.asks other found hfound
      exact ⟨List.not_mem_cons_of_ne_of_not_mem hother hout, hcall⟩
  once := h.once
  kept submission hsubmission :=
    let ⟨hin, hcall⟩ := h.kept submission hsubmission
    ⟨List.mem_cons_of_mem _ hin, hcall⟩

theorem enters (hstage : stage.asks? = none) :
    Tidy (ticket :: tickets) calls (Function.update callers ticket stage)
      (enqueued ++ [(ticket, envelope)]) :=
  { h.joins hasks hstage with
    once := by
      rw [List.map_append, List.map_cons, List.map_nil]
      refine List.nodup_append.2 ⟨h.once, List.nodup_singleton _, ?_⟩
      rintro other hother _ hnew rfl
      obtain ⟨submission, hsubmission, rfl⟩ := List.mem_map.1 hother
      have hsame : submission.1 = ticket := List.mem_singleton.1 hnew
      rw [← hsame] at hasks
      exact (h.asks _ _ hasks).1 (h.kept submission hsubmission).1
    kept := fun submission hsubmission => by
      rcases List.mem_append.1 hsubmission with hold | hnew
      · obtain ⟨hin, hcall⟩ := h.kept submission hold
        exact ⟨List.mem_cons_of_mem _ hin, hcall⟩
      · rw [List.mem_singleton.1 hnew]
        exact ⟨List.mem_cons_self, (h.asks ticket envelope hasks).2⟩ }

end Joins

end Tidy

/-! ## Steps -/

theorem perm_answers (front waiting answers : List Ticket) (ticket : Ticket) :
    (front ++ waiting ++ (answers ++ [ticket])).Perm (ticket :: (front ++ waiting ++ answers)) := by
  rw [← List.append_assoc]
  exact List.perm_append_singleton ticket _

theorem perm_waiting (front waiting answers : List Ticket) (ticket : Ticket) :
    (front ++ (waiting ++ [ticket]) ++ answers).Perm (ticket :: (front ++ waiting ++ answers)) := by
  rw [← List.append_assoc, List.append_assoc _ [ticket]]
  exact List.perm_middle

/-- Whom a caller or the worker refuses has an answer. -/
theorem tickets_refuse (machine : Machine ρ υ α) (ticket : Ticket) :
    ({ machine with actor := machine.actor.refuse ticket } : Machine ρ υ α).tickets.Perm
      (ticket :: machine.tickets) := by
  unfold Machine.tickets Actor.refuse Actor.answer
  rw [List.map_append]
  exact perm_answers ..

/-- Whom the worker answers was in its hands. -/
theorem perm_reply {worker : Worker υ α} (waiting answers : List Ticket)
    (howes : worker.owes? = some ticket) :
    (waiting ++ (answers ++ [ticket])).Perm (worker.owes?.toList ++ waiting ++ answers) := by
  rw [howes]
  exact perm_answers [] ..

/-- Submissions are where the machine has them. -/
structure Machine.Kept (machine : Machine ρ υ α) : Prop where
  tidy : Tidy machine.tickets machine.calls machine.callers machine.enqueued
  submitted : machine.actor.submitted = machine.calls.length

theorem kept_start (name : String) (depth : Nat) (initial : ρ) :
    (Machine.start name depth initial : Machine ρ υ α).Kept where
  tidy :=
    { distinct := List.nodup_nil
      known := nofun
      asks := nofun
      once := List.nodup_nil
      kept := nofun }
  submitted := rfl

theorem asks?_entry (envelope : Envelope υ) :
    (Caller.entry envelope : Caller υ α).asks? = some envelope := by
  cases envelope <;> rfl

namespace Machine.Kept

/-- A caller that is refused is at its end. -/
theorem refuse (h : machine.Kept) (hasks : (machine.callers ticket).asks? = some envelope) :
    ({ machine with actor := machine.actor.refuse ticket }.goto ticket .awaiting).Kept where
  tidy := (h.tidy.joins hasks rfl).perm (tickets_refuse machine ticket)
  submitted := h.submitted

theorem step (h : machine.Kept) (hstep : Step behaviour machine next) : next.Kept := by
  obtain ⟨htidy, hsubmitted⟩ := h
  cases hstep with
  | arrives envelope =>
    refine ⟨?_, by rw [Machine.goto, List.length_append, hsubmitted]; rfl⟩
    rw [hsubmitted]
    exact htidy.arrives fun other hother => Option.some.inj (hother.symm.trans (asks?_entry _))
  | admitted stage =>
    exact ⟨htidy.goto fun envelope henvelope => by rw [stage]; exact henvelope, hsubmitted⟩
  | refused stage => exact refuse ⟨htidy, hsubmitted⟩ (by rw [stage]; rfl)
  | closes stage =>
    exact ⟨htidy.goto fun envelope henvelope => by rw [stage]; exact henvelope, hsubmitted⟩
  | closedBefore stage => exact refuse ⟨htidy, hsubmitted⟩ (by rw [stage]; rfl)
  | enqueued stage =>
    refine ⟨(htidy.enters (by rw [stage]; rfl) rfl).perm ?_, hsubmitted⟩
    unfold tickets
    rw [Machine.goto, List.map_append]
    exact perm_waiting ..
  | bounced stage => exact refuse ⟨htidy, hsubmitted⟩ (by rw [stage]; rfl)
  | returned => exact ⟨htidy.goto nofun, hsubmitted⟩
  | leaves => exact ⟨htidy.goto nofun, hsubmitted⟩
  | releases => exact ⟨htidy, hsubmitted⟩
  | takes idle first =>
    refine ⟨htidy.perm (.of_eq ?_), hsubmitted⟩
    simp [tickets, idle, first, Worker.owes?]
  | quits idle =>
    refine ⟨htidy.perm (.of_eq ?_), hsubmitted⟩
    simp [tickets, idle, Worker.owes?]
  | drops stage =>
    refine ⟨htidy.perm ?_, hsubmitted⟩
    simp only [tickets, Actor.refuse, Actor.answer, List.map_append]
    exact perm_reply _ _ (by rw [stage]; rfl)
  | drains stage first =>
    refine ⟨htidy.perm ?_, hsubmitted⟩
    simp only [tickets, Actor.refuse, Actor.answer, List.map_append, first]
    refine (perm_answers ..).trans ?_
    simp only [List.map_cons, List.append_assoc, List.cons_append]
    exact List.perm_middle.symm
  | replies stage | stops stage =>
    refine ⟨htidy.perm ?_, hsubmitted⟩
    simp only [tickets, Actor.answer, List.map_append]
    exact perm_reply _ _ (by rw [stage]; rfl)
  | begins stage | ends stage | counts stage | tearsDown stage | finishes stage | shuts stage =>
    refine ⟨htidy.perm (.of_eq ?_), hsubmitted⟩
    simp [tickets, stage, Worker.owes?]
  | goesOn => exact ⟨htidy, hsubmitted⟩

end Machine.Kept

/-! ## The order of the mailbox -/

/-- What was put into the mailbox is what the worker is through with, what it has in its hands, and
what is still there; of what it is through with it has begun some, in that order. -/
def InOrder (machine : Machine ρ υ α) : Prop :=
  ∃ front, machine.enqueued = front ++ machine.worker.held ++ machine.actor.waiting ∧
    machine.begun.Sublist front

theorem inOrder_start (name : String) (depth : Nat) (initial : ρ) :
    InOrder (.start name depth initial : Machine ρ υ α) :=
  ⟨[], rfl, .slnil⟩

namespace InOrder

theorem step (h : InOrder machine) (hstep : Step behaviour machine next) : InOrder next := by
  obtain ⟨front, hfront, hbegun⟩ := h
  cases hstep with
  | enqueued =>
    refine ⟨front, ?_, hbegun⟩
    simp [Machine.goto, hfront]
  | takes stage first =>
    refine ⟨front, ?_, by simpa [Machine.begun, stage, Worker.inService] using hbegun⟩
    simp [hfront, stage, first, Worker.held]
  | drops stage =>
    refine ⟨front ++ machine.worker.held, ?_, ?_⟩
    · simp [hfront, Worker.held, Actor.refuse, Actor.answer]
    · refine .trans ?_ (List.sublist_append_left ..)
      simpa [Machine.begun, stage, Worker.inService] using hbegun
  | @drains _ other _ envelope _ stage first =>
    refine ⟨front ++ [(other, envelope)], ?_, hbegun.trans (List.sublist_append_left ..)⟩
    simp [hfront, stage, first, Worker.held, Actor.refuse, Actor.answer]
  | begins stage =>
    refine ⟨front ++ machine.worker.held, by simp [hfront, Worker.held], ?_⟩
    simpa [Machine.begun, stage, Worker.inService, Worker.held] using hbegun
  | tearsDown stage =>
    refine ⟨front ++ machine.worker.held, by simp [hfront, Worker.held], ?_⟩
    simpa [Machine.begun, stage, Worker.inService, Worker.held, Ran.submission] using hbegun
  | goesOn | arrives | admitted | refused | closes | closedBefore | bounced | returned | leaves
  | releases => exact ⟨front, hfront, hbegun⟩
  | quits stage | ends stage | replies stage | counts stage | finishes stage | shuts stage
  | stops stage =>
    refine ⟨front, by simpa [stage, Worker.held, Actor.answer] using hfront, ?_⟩
    simpa [Machine.begun, stage, Worker.inService, Ran.submission] using hbegun

end InOrder

end CommitLog.Actor.Contention
