import CommitLog.Proofs.Actor.Serving

/-!
# An actor that is asked to close once

Somebody holds the actor all the time, and nobody requests closing but one. Then whoever requests
closing is not refused, and so has an answer only when the worker has stopped
(`Parting.stopped_of_returned`).
-/

namespace CommitLog.Actor.Contention

variable {ρ υ α : Type} {behaviour : Behaviour ρ υ α} {machine next : Machine ρ υ α}
  {calls : List (Envelope υ)} {envelope : Envelope υ} {ticket other : Ticket}

/-! ## Requests to close -/

/-- What was submitted under a ticket is a request to close. -/
def Asks (calls : List (Envelope υ)) (ticket : Ticket) : Prop :=
  ∃ teardown, calls[ticket]? = some (.close teardown)

/-- Nobody requests closing but one. -/
def AsksOnce (calls : List (Envelope υ)) : Prop :=
  ∀ ticket other, Asks calls ticket → Asks calls other → ticket = other

theorem not_asks_of_run {unit : υ} (h : calls[ticket]? = some (.run unit)) :
    ¬Asks calls ticket := by
  rintro ⟨teardown, hclose⟩
  cases h.symm.trans hclose

theorem asks_concat_of_lt (h : ticket < calls.length) :
    Asks (calls ++ [envelope]) ticket ↔ Asks calls ticket := by
  unfold Asks
  rw [List.getElem?_append_left h]

theorem Asks.lt (h : Asks calls ticket) : ticket < calls.length := by
  obtain ⟨teardown, hclose⟩ := h
  exact (List.getElem?_eq_some_iff.1 hclose).1

/-- Units of work do not request closing. -/
theorem asks_concat_run {unit : υ} (h : Asks (calls ++ [.run unit]) ticket) :
    Asks calls ticket := by
  have hlt := h.lt
  rw [List.length_append, List.length_singleton] at hlt
  rcases Nat.lt_or_eq_of_le (Nat.le_of_lt_succ hlt) with hlt | rfl
  · exact (asks_concat_of_lt hlt).1 h
  · exact absurd h (not_asks_of_run List.getElem?_concat_length)

theorem AsksOnce.concat_run (h : AsksOnce calls) (unit : υ) : AsksOnce (calls ++ [.run unit]) :=
  fun _ _ hone hother => h _ _ (asks_concat_run hone) (asks_concat_run hother)

/-- The first request to close. -/
theorem AsksOnce.concat_close (h : ∀ ticket, ¬Asks calls ticket) (teardown : υ) :
    AsksOnce (calls ++ [.close teardown]) := by
  have hlast : ∀ ticket, Asks (calls ++ [.close teardown]) ticket → ticket = calls.length := by
    intro ticket hasks
    have hlt := hasks.lt
    rw [List.length_append, List.length_singleton] at hlt
    by_contra hne
    exact h ticket ((asks_concat_of_lt (Nat.lt_of_le_of_ne (Nat.le_of_lt_succ hlt) hne)).1 hasks)
  exact fun ticket other hone hother => (hlast ticket hone).trans (hlast other hother).symm

/-! ## What every state keeps -/

namespace Worker

/-- The unit of work that the worker runs, or is to answer. -/
def runs? : Worker υ α → Option Ticket
  | serving ticket _ | replying ticket _ => some ticket
  | _ => none

/-- The request to close that the worker is to answer, when the teardown has run. -/
def parts? : Worker υ α → Option Ticket
  | tornDown ticket _ | shutting ticket _ | draining ticket _ => some ticket
  | _ => none

/-- A mailbox takes nothing any more when the worker has closed it, and has not stopped. -/
theorem exists_parts (worker : Worker υ α) (h : ¬worker.Receives) (hworker : worker ≠ .stopped) :
    ∃ ticket, worker.parts? = some ticket := by
  cases worker with
  | draining ticket value => exact ⟨ticket, rfl⟩
  | stopped => exact absurd rfl hworker
  | _ => exact absurd trivial h

theorem owes_of_runs {worker : Worker υ α} (h : worker.runs? = some ticket) :
    worker.owes? = some ticket := by
  cases worker <;> first | exact h | cases h

theorem owes_of_parts {worker : Worker υ α} (h : worker.parts? = some ticket) :
    worker.owes? = some ticket := by
  cases worker <;> first | exact h | cases h

end Worker

/-- An actor that somebody holds, and that is asked to close at most once. -/
structure Parting (machine : Machine ρ υ α) : Prop where
  kept : machine.Kept
  order : InOrder machine
  returned : Returned machine
  held : machine.released = false
  once : AsksOnce machine.calls
  /-- The flag was set by the one who requested closing. -/
  swapped : machine.actor.closing = true → ∃ ticket, Asks machine.calls ticket ∧
    ∀ teardown, machine.callers ticket ≠ .swapping teardown
  working : ∀ ticket, machine.worker.runs? = some ticket → ¬Asks machine.calls ticket
  parting : ∀ ticket, machine.worker.parts? = some ticket → Asks machine.calls ticket
  /-- The request to close is answered last. -/
  answered : ∀ ticket, Asks machine.calls ticket →
    ticket ∈ machine.actor.answers.map Prod.fst → machine.worker = .stopped

theorem parting_start (name : String) (depth : Nat) (initial : ρ) :
    Parting (.start name depth initial : Machine ρ υ α) where
  kept := kept_start ..
  order := inOrder_start ..
  returned := nofun
  held := rfl
  once := nofun
  swapped := nofun
  working := nofun
  parting := nofun
  answered := nofun

/-- What the worker has in its hands to be judged is what was submitted. -/
theorem calls_of_holding (hkept : machine.Kept) (horder : InOrder machine)
    (holding : machine.worker = .holding ticket envelope) :
    machine.calls[ticket]? = some envelope := by
  obtain ⟨front, hfront, -⟩ := horder
  refine (hkept.tidy.kept (ticket, envelope) ?_).2
  rw [hfront, holding]
  simp [Worker.held]

theorem mem_tickets (howes : machine.worker.owes? = some ticket) : ticket ∈ machine.tickets := by
  unfold Machine.tickets
  rw [howes]
  simp

/-- Nobody else swaps the flag when a caller goes on. -/
theorem swapped_of_update {callers : Ticket → Caller υ α} {caller : Ticket} {stage : Caller υ α}
    (h : ∀ teardown, callers ticket ≠ .swapping teardown)
    (hstage : ∀ teardown, stage ≠ .swapping teardown) (teardown : υ) :
    Function.update callers caller stage ticket ≠ .swapping teardown := by
  by_cases hticket : ticket = caller
  · rw [hticket, Function.update_self]
    exact hstage teardown
  · rw [Function.update_of_ne hticket]
    exact h teardown

namespace Parting

variable (h : Parting machine)

include h

/-- The resource has no say in this. -/
theorem with_resource (resource : ρ) : Parting { machine with resource } :=
  ⟨⟨h.kept.tidy, h.kept.submitted⟩, h.order, h.returned, h.held, h.once, h.swapped, h.working,
    h.parting, h.answered⟩

theorem known (hanswered : ticket ∈ machine.actor.answers.map Prod.fst) :
    ticket < machine.calls.length :=
  h.kept.tidy.known ticket (List.mem_append_right _ hanswered)

/-- As long as the worker goes on, the request to close has no answer. -/
theorem not_answered (hworker : machine.worker ≠ .stopped) (hasks : Asks machine.calls ticket) :
    ticket ∉ machine.actor.answers.map Prod.fst :=
  fun hanswered => hworker (h.answered ticket hasks hanswered)

/-- Somebody is refused who did not request closing. -/
theorem answered_refuse (hticket : ¬Asks machine.calls ticket)
    (hasks : Asks machine.calls other)
    (hanswered : other ∈ (machine.actor.refuse ticket).answers.map Prod.fst) :
    machine.worker = .stopped := by
  rw [Actor.refuse, Actor.answer, List.map_append, List.mem_append] at hanswered
  rcases hanswered with hold | hnew
  · exact h.answered other hasks hold
  · obtain rfl : other = ticket := List.mem_singleton.1 hnew
    exact absurd hasks hticket

/-- What the worker has in its hands is not in the mailbox. -/
theorem ne_of_waiting {submission : Ticket × Envelope υ} (howes : machine.worker.owes? = some ticket)
    (hwaiting : submission ∈ machine.actor.waiting) : ticket ≠ submission.1 := by
  have hdistinct := h.kept.tidy.distinct
  unfold Machine.tickets at hdistinct
  rw [howes, List.append_assoc] at hdistinct
  exact (List.nodup_append.1 hdistinct).2.2 _ (List.mem_singleton_self _) _
    (List.mem_append_left _ (List.mem_map_of_mem hwaiting))

/-- Whoever is to put a request to close into the mailbox has made one. -/
theorem asks_of_caller {teardown : υ}
    (hasks : (machine.callers ticket).asks? = some (.close teardown)) : Asks machine.calls ticket :=
  ⟨teardown, (h.kept.tidy.asks _ _ hasks).2⟩

/-- Whoever puts something into the mailbox that is no request to close is no such request. -/
theorem not_asks_of_caller {unit : υ} (hasks : (machine.callers ticket).asks? = some (.run unit)) :
    ¬Asks machine.calls ticket :=
  not_asks_of_run (h.kept.tidy.asks _ _ hasks).2

/-- Nobody finds the flag set when it requests closing. -/
theorem not_closing {teardown : υ} (hstage : machine.callers ticket = .swapping teardown) :
    machine.actor.closing = false := by
  rw [← Bool.not_eq_true]
  intro hclosing
  obtain ⟨found, hasks, hpast⟩ := h.swapped hclosing
  have hcaller : (machine.callers ticket).asks? = some (.close teardown) := by
    rw [hstage]
    rfl
  obtain rfl := h.once ticket found ⟨teardown, (h.kept.tidy.asks _ _ hcaller).2⟩ hasks
  exact hpast teardown hstage

section Step

variable (hstep : Step behaviour machine next)

include hstep

theorem swapped_step (hclosing : next.actor.closing = true) : ∃ ticket, Asks next.calls ticket ∧
    ∀ teardown, next.callers ticket ≠ .swapping teardown := by
  have hswapped := h.swapped
  cases hstep with
  | arrives envelope =>
    obtain ⟨found, hasks, hpast⟩ := hswapped hclosing
    refine ⟨found, (asks_concat_of_lt hasks.lt).2 hasks, fun teardown => ?_⟩
    have hne : found ≠ machine.actor.submitted := by
      rw [h.kept.submitted]
      exact Nat.ne_of_lt hasks.lt
    show Function.update _ _ _ found ≠ _
    rw [Function.update_of_ne hne]
    exact hpast teardown
  | admitted | refused | enqueued | bounced | returned | leaves =>
    obtain ⟨found, hasks, hpast⟩ := hswapped hclosing
    exact ⟨found, hasks, swapped_of_update hpast (by simp)⟩
  | closes stage =>
    exact ⟨_, h.asks_of_caller (by rw [stage]; rfl), by simp [callers_goto]⟩
  | closedBefore stage closing =>
    rw [h.not_closing stage] at closing
    cases closing
  | _ => exact hswapped hclosing

theorem working_step (hruns : next.worker.runs? = some ticket) : ¬Asks next.calls ticket := by
  cases hstep with
  | arrives =>
    have hlt := h.kept.tidy.known ticket (mem_tickets (Worker.owes_of_runs hruns))
    exact fun hasks => h.working ticket hruns ((asks_concat_of_lt hlt).1 hasks)
  | begins stage =>
    have hrun := not_asks_of_run (calls_of_holding h.kept h.order stage)
    obtain rfl := Option.some.inj hruns
    exact hrun
  | ends stage => exact h.working ticket (by rw [stage]; exact hruns)
  | takes | quits | drops | replies | counts | tearsDown | finishes | shuts | stops => cases hruns
  | _ => exact h.working ticket hruns

theorem parting_step (hparts : next.worker.parts? = some ticket) : Asks next.calls ticket := by
  cases hstep with
  | arrives =>
    have hlt := h.kept.tidy.known ticket (mem_tickets (Worker.owes_of_parts hparts))
    exact (asks_concat_of_lt hlt).2 (h.parting ticket hparts)
  | @tearsDown _ teardown _ _ stage =>
    have hclose := calls_of_holding h.kept h.order stage
    obtain rfl := Option.some.inj hparts
    exact ⟨teardown, hclose⟩
  | finishes stage | shuts stage => exact h.parting ticket (by rw [stage]; exact hparts)
  | takes | quits | drops | begins | ends | replies | counts | stops => cases hparts
  | _ => exact h.parting ticket hparts

theorem answered_step (hasks : Asks next.calls ticket)
    (hanswered : ticket ∈ next.actor.answers.map Prod.fst) : next.worker = .stopped := by
  cases hstep with
  | arrives => exact h.answered ticket ((asks_concat_of_lt (h.known hanswered)).1 hasks) hanswered
  | refused stage =>
    exact h.answered_refuse (h.not_asks_of_caller (by rw [stage]; rfl)) hasks hanswered
  | closedBefore stage closing =>
    rw [h.not_closing stage] at closing
    cases closing
  | @bounced bounced envelope stage shut =>
    show machine.worker = .stopped
    by_contra hworker
    -- the mailbox was closed by the one who requested closing, and that one has left it by now
    obtain ⟨asked, hparts⟩ := machine.worker.exists_parts shut hworker
    have hout := (h.kept.tidy.asks bounced envelope (by rw [stage]; rfl)).1
    have hin : asked ∈ machine.tickets := mem_tickets (Worker.owes_of_parts hparts)
    have hne : ¬Asks machine.calls bounced := fun hask =>
      hout (h.once _ _ hask (h.parting asked hparts) ▸ hin)
    exact hworker (h.answered_refuse hne hasks hanswered)
  | quits | stops => rfl
  | takes stage | begins stage | ends stage | counts stage | tearsDown stage | finishes stage
  | shuts stage =>
    exact absurd hanswered (h.not_answered (by rw [stage]; simp) hasks)
  | drops stage =>
    have hrun := not_asks_of_run (calls_of_holding h.kept h.order stage)
    have hstopped := h.answered_refuse hrun hasks hanswered
    rw [stage] at hstopped
    cases hstopped
  | @replies answered outcome stage =>
    have hrun := h.working answered (by rw [stage]; rfl)
    have hold : ticket ∈ machine.actor.answers.map Prod.fst := by
      rw [Actor.answer, List.map_append, List.mem_append] at hanswered
      refine hanswered.resolve_right fun hnew => ?_
      obtain rfl : ticket = answered := List.mem_singleton.1 hnew
      exact hrun hasks
    exact absurd hold (h.not_answered (by rw [stage]; simp) hasks)
  | @drains asked other value envelope later stage first =>
    have hasked := h.parting asked (by rw [stage]; rfl)
    have howes : machine.worker.owes? = some asked := by
      rw [stage]
      rfl
    have hwaiting : (other, envelope) ∈ machine.actor.waiting := by
      rw [first]
      exact List.mem_cons_self
    have hne : ¬Asks machine.calls other := fun hother =>
      h.ne_of_waiting howes hwaiting (h.once _ _ hasked hother)
    exact h.answered_refuse hne hasks hanswered
  | _ => exact h.answered ticket hasks hanswered

/-- **A step of an actor that is asked to close at most once.** -/
theorem step (hheld : next.released = false) (honce : AsksOnce next.calls) : Parting next where
  kept := h.kept.step hstep
  order := h.order.step hstep
  returned := h.returned.step hstep
  held := hheld
  once := honce
  swapped := h.swapped_step hstep
  working _ := h.working_step hstep
  parting _ := h.parting_step hstep
  answered _ := h.answered_step hstep

end Step

/-- **Whoever requested closing has an answer only when the worker has stopped.** -/
theorem stopped_of_returned {reply : Except Error α} (hasks : Asks machine.calls ticket)
    (hreturned : machine.callers ticket = .returned reply) : machine.worker = .stopped := by
  have hanswer := mem_of_answer? (h.returned ticket reply hreturned)
  exact h.answered ticket hasks (List.mem_map_of_mem hanswer)

end Parting

end CommitLog.Actor.Contention
