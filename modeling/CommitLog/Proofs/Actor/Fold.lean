import CommitLog.Proofs.Actor.Machine

/-!
# What the units make of a resource

Only the worker has the resource, so what it is can be told from the units that have come to
their end, in order: each begins with what the one before has left. A unit that panics is no
different from others here. While a unit is under way the resource is what its first pieces have
made of it.
-/

namespace CommitLog.Actor

open Relation (ReflTransGen)

variable {ρ υ α : Type} {behaviour : Behaviour ρ υ α} {unit : υ} {resource after after' : ρ}
  {outcome outcome' : Except Panic α}

/-! ## Units -/

/-- One piece of a unit, after which it has to wait. -/
def Piece (behaviour : Behaviour ρ υ α) (begun left : υ × ρ) : Prop :=
  behaviour.run begun.1 begun.2 = (.waiting left.1, left.2)

/-- The last piece of a unit. -/
def Ends (behaviour : Behaviour ρ υ α) (left : υ × ρ) (outcome : Except Panic α) (after : ρ) :
    Prop :=
  ∃ served, behaviour.run left.1 left.2 = (served, after) ∧ served.outcome? = some outcome

/-- A unit, in as many pieces as it takes. -/
def Does (behaviour : Behaviour ρ υ α) (unit : υ) (resource : ρ) (outcome : Except Panic α)
    (after : ρ) : Prop :=
  ∃ left, ReflTransGen (Piece behaviour) (unit, resource) left ∧ Ends behaviour left outcome after

theorem Piece.unique {begun left left' : υ × ρ} (h : Piece behaviour begun left)
    (h' : Piece behaviour begun left') : left = left' := by
  have hsame := h.symm.trans h'
  simp only [Prod.mk.injEq, Served.waiting.injEq] at hsame
  exact Prod.ext hsame.1 hsame.2

theorem Ends.not_piece {begun left : υ × ρ} (h : Ends behaviour begun outcome after) :
    ¬Piece behaviour begun left := by
  intro hpiece
  obtain ⟨served, hruns, hended⟩ := h
  rw [hpiece] at hruns
  cases hruns
  cases hended

theorem Ends.unique {left : υ × ρ} (h : Ends behaviour left outcome after)
    (h' : Ends behaviour left outcome' after') : outcome = outcome' ∧ after = after' := by
  obtain ⟨served, hruns, hended⟩ := h
  obtain ⟨served', hruns', hended'⟩ := h'
  rw [hruns] at hruns'
  cases hruns'
  exact ⟨Option.some.inj (hended.symm.trans hended'), rfl⟩

/-- What a unit comes to depends on the resource alone. -/
theorem Does.unique (h : Does behaviour unit resource outcome after)
    (h' : Does behaviour unit resource outcome' after') : outcome = outcome' ∧ after = after' := by
  obtain ⟨left, hleft, hends⟩ := h
  obtain ⟨left', hleft', hends'⟩ := h'
  -- one of them goes on from the other, which is at its end already
  have hsame : left = left' := by
    have hunique : Relator.RightUnique (Piece behaviour) := fun _ _ _ => Piece.unique
    rcases ReflTransGen.total_of_right_unique hunique hleft hleft' with hgo | hgo
    · rcases hgo.cases_head with hsame | ⟨_, hpiece, -⟩
      · exact hsame
      · exact absurd hpiece hends.not_piece
    · rcases hgo.cases_head with hsame | ⟨_, hpiece, -⟩
      · exact hsame.symm
      · exact absurd hpiece hends'.not_piece
  subst hsame
  exact hends.unique hends'

namespace Contention

variable {machine next : Machine ρ υ α} {initial : ρ} {ran : List (Ran υ α)} {last : Ran υ α}

/-! ## Rows of units -/

/-- What one that has come to its end made of the resource. -/
def Acts (behaviour : Behaviour ρ υ α) (ran : Ran υ α) (resource after : ρ) : Prop :=
  match ran.envelope with
  | .run unit => Does behaviour unit resource ran.outcome after
  | .close teardown =>
    ∃ value, behaviour.teardown teardown resource = (value, after) ∧ ran.outcome = .ok value

/-- What a row of them made of the resource, one after the other. -/
def Folds (behaviour : Behaviour ρ υ α) : List (Ran υ α) → ρ → ρ → Prop
  | [], resource, after => after = resource
  | ran :: later, resource, after =>
    ∃ between, Acts behaviour ran resource between ∧ Folds behaviour later between after

theorem Acts.unique {ran : Ran υ α} (h : Acts behaviour ran resource after)
    (h' : Acts behaviour ran resource after') : after = after' := by
  obtain ⟨ticket, envelope, outcome⟩ := ran
  cases envelope with
  | run unit => exact (Does.unique h h').2
  | close teardown =>
    obtain ⟨value, hruns, -⟩ := h
    obtain ⟨value', hruns', -⟩ := h'
    exact (Prod.mk.inj (hruns.symm.trans hruns')).2

/-- A row of units makes one thing of a resource. -/
theorem Folds.unique (h : Folds behaviour ran resource after)
    (h' : Folds behaviour ran resource after') : after = after' := by
  induction ran generalizing resource with
  | nil => exact h.trans h'.symm
  | cons first later ih =>
    obtain ⟨between, hfirst, hlater⟩ := h
    obtain ⟨between', hfirst', hlater'⟩ := h'
    obtain rfl := hfirst.unique hfirst'
    exact ih hlater hlater'

theorem Folds.concat (h : Folds behaviour ran initial resource)
    (hlast : Acts behaviour last resource after) :
    Folds behaviour (ran ++ [last]) initial after := by
  induction ran generalizing initial with
  | nil =>
    obtain rfl : resource = initial := h
    exact ⟨after, hlast, rfl⟩
  | cons first later ih =>
    obtain ⟨between, hfirst, hlater⟩ := h
    exact ⟨between, hfirst, ih hlater⟩

theorem Folds.acts (h : Folds behaviour ran initial after) (hlast : last ∈ ran) :
    ∃ resource between, Acts behaviour last resource between := by
  induction ran generalizing initial with
  | nil => cases hlast
  | cons first later ih =>
    obtain ⟨between, hfirst, hlater⟩ := h
    rcases List.mem_cons.1 hlast with rfl | hlast
    · exact ⟨initial, between, hfirst⟩
    · exact ih hlater hlast

/-! ## The resource of the machine -/

/-- What the unit in service has made of the resource so far. -/
def Midway (behaviour : Behaviour ρ υ α) (serving : Option (Ticket × υ)) (settled resource : ρ) :
    Worker υ α → Prop
  | .serving ticket unit => ∃ left, serving = some (ticket, left) ∧
      ReflTransGen (Piece behaviour) (unit, settled) (left, resource)
  | _ => resource = settled

/-- The resource is what the units have made of it. -/
def Folded (behaviour : Behaviour ρ υ α) (initial : ρ) (machine : Machine ρ υ α) : Prop :=
  ∃ settled, Folds behaviour machine.ran initial settled ∧
    Midway behaviour machine.actor.serving settled machine.resource machine.worker

theorem folded_start (behaviour : Behaviour ρ υ α) (name : String) (depth : Nat) (initial : ρ) :
    Folded behaviour initial (.start name depth initial) :=
  ⟨initial, rfl, rfl⟩

/-- A step does to the resource what a piece of the unit in service does, or nothing. -/
theorem Folded.step (h : Folded behaviour initial machine) (hstep : Step behaviour machine next) :
    Folded behaviour initial next := by
  obtain ⟨settled, hfolds, hmidway⟩ := h
  cases hstep with
  | takes hstage | quits hstage | drops hstage | replies hstage | counts hstage
  | finishes hstage | shuts hstage | stops hstage =>
    rw [hstage] at hmidway
    exact ⟨settled, hfolds, hmidway⟩
  | drains hstage => exact ⟨settled, hfolds, hmidway⟩
  | begins hstage =>
    rw [hstage] at hmidway
    have hsettled : machine.resource = settled := hmidway
    refine ⟨settled, hfolds, _, rfl, ?_⟩
    rw [hsettled]
  | goesOn hstage isLeft runs =>
    rw [hstage] at hmidway
    obtain ⟨left, hleft, hpieces⟩ := hmidway
    cases hleft.symm.trans isLeft
    refine ⟨settled, hfolds, ?_⟩
    rw [hstage]
    exact ⟨_, rfl, hpieces.tail runs⟩
  | ends hstage isLeft runs ended =>
    rw [hstage] at hmidway
    obtain ⟨left, hleft, hpieces⟩ := hmidway
    cases hleft.symm.trans isLeft
    exact ⟨_, hfolds.concat ⟨_, hpieces, _, runs, ended⟩, rfl⟩
  | tearsDown hstage runs =>
    rw [hstage] at hmidway
    have hsettled : machine.resource = settled := hmidway
    rw [hsettled] at runs
    exact ⟨_, hfolds.concat ⟨_, runs, rfl⟩, rfl⟩
  | _ => exact ⟨settled, hfolds, hmidway⟩

end Contention

end CommitLog.Actor
