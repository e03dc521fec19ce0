import CommitLog.Proofs.Batching.Machine

/-!
# What a writer will be answered

The results that a writer will have been given in the end can be told at any point of a run: they
are those that have been made, followed by what comes of the attempts that are left when they are
appended one after another from here. Nothing that happens changes this forecast but for stamps
(`foreseen_step`). How the attempts are cut into units does not come into it, so writers that send
the same attempts in different units are answered alike.
-/

namespace CommitLog.Batching

open CommitLog.Handover (Run Worker)
open CommitLog.Topic (Folder appendAll)

variable {config : Config} {folder : Folder} {start hall next : Hall} {topic after : Topic}
  {env : Env} {moved : Worker} {results : List (Except LogError RawOutcome)}
  {rest : List (List RawCommit)}

/-- The results of the unit that the worker is at. -/
def madeBy : Worker → List (Except LogError RawOutcome)
  | .idle => []
  | .appending _ results => results
  | .publishing results _ => results
  | .held results _ => results

/-- The attempts of the unit that are left. -/
def leftTo : Worker → List RawAttempt
  | .appending attempts _ => attempts
  | _ => []

namespace Hall

/-- The results so far. -/
def made (hall : Hall) : List (Except LogError RawOutcome) := hall.answers ++ madeBy hall.worker

/-- The attempts that are left. -/
def left (hall : Hall) : List RawAttempt := leftTo hall.worker ++ hall.units.flatten

/-- All results, if nothing came in between any more. -/
def forecast (hall : Hall) : List (Except LogError RawOutcome) :=
  hall.made ++ (appendAll hall.left hall.topic hall.env).1

/-- The topic behind them. -/
def outlook (hall : Hall) : Topic := (appendAll hall.left hall.topic hall.env).2.1

/-- When everything is answered there is nothing left to foresee. -/
theorem Done.forecast_eq (h : hall.Done) : hall.forecast = hall.answers := by
  simp only [forecast, made, left, h.worker_eq, h.units_eq, madeBy, leftTo, List.flatten_nil,
    appendAll, List.append_nil]

theorem Done.outlook_eq (h : hall.Done) : hall.outlook = hall.topic := by
  simp only [outlook, left, h.worker_eq, h.units_eq, leftTo, List.flatten_nil, appendAll,
    List.append_nil]

end Hall

/-- The forecast has stayed as it is, but for stamps. -/
structure Foreseen (hall next : Hall) : Prop where
  forecast_eq : next.forecast.map unstampedResult = hall.forecast.map unstampedResult
  outlook : Alike hall.outlook next.outlook

theorem Foreseen.refl (hall : Hall) : Foreseen hall hall := ⟨rfl, .refl _⟩

theorem Foreseen.trans (h : Foreseen start hall) (hnext : Foreseen hall next) :
    Foreseen start next where
  forecast_eq := hnext.forecast_eq.trans h.forecast_eq
  outlook := h.outlook.trans hnext.outlook

/-- Where no attempt is appended only the indexes count. -/
theorem foreseen_of_alike (h : Orderly config folder hall) (h' : Orderly config folder next)
    (hmade : next.made = hall.made) (hleft : next.left = hall.left)
    (halike : Alike hall.topic next.topic) : Foreseen hall next := by
  obtain ⟨hresults, hlast⟩ := appendAll_alike hall.left halike h.inOrder.agrees h'.inOrder.agrees
  have hresults' : (appendAll hall.left hall.topic hall.env).1.map unstampedResult
      = (appendAll hall.left next.topic next.env).1.map unstampedResult := hresults
  refine ⟨?_, ?_⟩
  · simp only [Hall.forecast, List.map_append, hmade, hleft, hresults']
  · unfold Hall.outlook
    rw [hleft]
    exact hlast

/-- Giving a batch to the queue is no concern of the indexes. -/
theorem foreseen_afterBatch {progress : Queue.Progress RawCommit} {last : Queue RawCommit}
    (h : Orderly config folder hall)
    (h' : Orderly config folder { hall with worker := moved, topic := after })
    (hmade : madeBy hall.worker = results) (hleft : leftTo hall.worker = [])
    (hgiven : Worker.afterBatch results rest hall.topic (progress, last) = (moved, after)) :
    Foreseen hall { hall with worker := moved, topic := after } := by
  have hkept : Alike hall.topic after ∧ madeBy moved = results ∧ leftTo moved = [] := by
    cases progress with
    | published =>
      obtain ⟨rfl, rfl⟩ := hgiven
      exact ⟨⟨rfl, rfl, rfl⟩, rfl, rfl⟩
    | rejected rejected =>
      obtain ⟨rfl, rfl⟩ := hgiven
      exact ⟨⟨rfl, rfl, rfl⟩, rfl, rfl⟩
    | waiting publication =>
      obtain ⟨rfl, rfl⟩ := hgiven
      exact ⟨⟨rfl, rfl, rfl⟩, rfl, rfl⟩
  obtain ⟨halike, hmade', hleft'⟩ := hkept
  refine foreseen_of_alike h h' ?_ ?_ halike
  · unfold Hall.made
    rw [hmade, hmade']
  · unfold Hall.left
    rw [hleft, hleft']

/-- The attempt that comes next is appended: its result is one that has been foreseen. -/
theorem foreseen_appending {attempt : RawAttempt} {attempts : List RawAttempt}
    {result : Except LogError RawOutcome}
    (hworker : hall.worker = .appending (attempt :: attempts) results)
    (hrun : hall.topic.append attempt hall.env = (result, after, env)) :
    Foreseen hall
      { hall with worker := .appending attempts (results ++ [result]), topic := after, env } := by
  have hleft : hall.left = attempt :: (attempts ++ hall.units.flatten) := by
    simp only [Hall.left, hworker, leftTo, List.cons_append]
  have hfirst : appendAll hall.left hall.topic hall.env
      = (result :: (appendAll (attempts ++ hall.units.flatten) after env).1,
        (appendAll (attempts ++ hall.units.flatten) after env).2) := by
    simp only [hleft, appendAll, hrun]
  refine ⟨?_, ?_⟩
  · simp only [Hall.forecast, hfirst, Hall.made, hworker, madeBy, List.append_assoc,
      List.singleton_append]
    rfl
  · unfold Hall.outlook
    rw [hfirst]
    exact .refl _

theorem foreseen_worked (h : Orderly config folder hall) (h' : Orderly config folder next)
    (hworked : Worked hall next) : Foreseen hall next := by
  cases hworked with
  | done => exact .refl hall
  | sent idle units_eq =>
    refine foreseen_of_alike h h' ?_ ?_ (.refl _)
    · simp only [Hall.made, idle, madeBy]
    · simp only [Hall.left, idle, units_eq, leftTo, List.flatten_cons, List.nil_append]
  | answered worker_eq =>
    refine foreseen_of_alike h h' ?_ ?_ (.refl _)
    · simp only [Hall.made, worker_eq, madeBy, List.append_nil]
    · simp only [Hall.left, worker_eq, leftTo]
  | advanced busy unanswered moves =>
    have hadvanced := advance_cases moves
    generalize hworker : hall.worker = worker at hadvanced
    cases hadvanced with
    | idle => exact absurd hworker busy
    | through => exact absurd hworker (unanswered _)
    | appended append_eq => exact foreseen_appending hworker append_eq
    | cut =>
      refine foreseen_of_alike h h' ?_ ?_ (.refl _)
      · simp only [Hall.made, hworker, madeBy]
      · simp only [Hall.left, hworker, leftTo]
    | handed publish_eq given =>
      exact foreseen_afterBatch h h' (by rw [hworker]; rfl) (by rw [hworker]; rfl) given
    | resumed resume_eq given =>
      exact foreseen_afterBatch h h' (by rw [hworker]; rfl) (by rw [hworker]; rfl) given

/-- **Nothing that happens changes the forecast.** -/
theorem foreseen_step (h : Orderly config folder hall) (hstep : Step folder hall next) :
    Foreseen hall next := by
  have h' := h.step hstep
  cases hstep with
  | worked => exact foreseen_worked h h' (work_cases hall)
  | polled consumer => exact foreseen_of_alike h h' rfl rfl ⟨rfl, rfl, rfl⟩
  | elsewhere keeps => exact foreseen_of_alike h h' rfl rfl (.refl _)

theorem foreseen_leads (h : Orderly config folder hall) (hleads : Leads folder hall next) :
    Foreseen hall next := by
  induction hleads with
  | refl => exact .refl hall
  | tail hmiddle hstep ih => exact ih.trans (foreseen_step (h.leads hmiddle) hstep)

end CommitLog.Batching
