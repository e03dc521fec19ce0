import CommitLog.Proofs.Actor.Parting
import CommitLog.Proofs.Closing.Machine

/-!
# How far closing has come

Of the topics that were open when they were taken down, each is still to be closed, being closed, or
stopped (`Close.Stands`). That stays so whatever an open topic does (`Close.Stands.goes`), and when a
topic is opened too late (`Close.Stands.insert`).
-/

namespace CommitLog.Closing

open CommitLog.Actor.Contention
open CommitLog.Topic (Task behaviour)

variable {env : Env} {server : Server} {name : String} {servers : String → Option Server}
  {late : Option String}

/-! ## What becomes of an open topic -/

/-- What a step leaves of an open topic, as far as closing goes: requests to close are where they
were, and a worker that has stopped does nothing. -/
structure Server.Goes (server next : Server) : Prop where
  parting : Parting next
  asks : ∀ ticket, Asks next.calls ticket ↔ Asks server.calls ticket
  stopped : server.worker = .stopped → next.worker = .stopped

theorem stopped_of_step {server next : Server} (h : Actor.Contention.Step behaviour server next)
    (hstopped : server.worker = .stopped) : next.worker = .stopped := by
  cases h with
  | takes stage | drops stage | begins stage | goesOn stage | ends stage | replies stage
  | counts stage | tearsDown stage | finishes stage | shuts stage =>
    rw [stage] at hstopped
    cases hstopped
  | quits | stops => rfl
  | _ => exact hstopped

namespace Server

variable (h : Parting server)

include h

/-- Something is done to the topic past the actor. -/
theorem goes_mapTopic (change : Topic → Topic) : server.Goes (server.mapTopic change) :=
  ⟨h.with_resource _, fun _ => Iff.rfl, id⟩

/-- Somebody comes with a unit of work. -/
theorem goes_arrive (task : Task) : server.Goes (server.arrive (.run task)) where
  parting := by
    have harrives : Actor.Contention.Step behaviour server (server.arrive (.run task)) :=
      .arrives (.run task) h.held
    exact h.step harrives h.held (h.once.concat_run task)
  asks ticket := by
    refine ⟨asks_concat_run, fun hasks => ?_⟩
    exact (asks_concat_of_lt hasks.lt).2 hasks
  stopped := id

/-- The actor goes on. -/
theorem goes_acts {next : Server}
    (hstep : Actor.Contention.Step behaviour (server.within env) next)
    (hnobody : next.calls = server.calls) (hheld : next.released = false) : server.Goes next where
  parting := by
    refine (h.with_resource (server.topic, env)).step hstep hheld ?_
    rw [hnobody]
    exact h.once
  asks ticket := by rw [hnobody]
  stopped hstopped := stopped_of_step hstep hstopped

end Server

/-! ## How far closing has come -/

/-- The topics that are still to be closed, when `asked` is being closed. All others that are open
have stopped, or were too late. -/
structure Remains (servers : String → Option Server) (late asked : Option String)
    (left : List String) : Prop where
  distinct : left.Nodup
  there : ∀ name ∈ left, ∃ server, servers name = some server ∧ ∀ ticket, ¬Asks server.calls ticket
  rest : ∀ name server, servers name = some server →
    name ∈ left ∨ asked = some name ∨ late = some name ∨ server.worker = .stopped

/-- What is known of the open topics when closing has come this far. -/
def Close.Stands (servers : String → Option Server) (late : Option String) : Close → Prop
  | .notYet | .collecting =>
    ∀ name server, servers name = some server → ∀ ticket, ¬Asks server.calls ticket
  | .stopping _ all | .disconnecting _ _ all => Remains servers late none all
  | .requesting left _ => Remains servers late none left
  | .awaiting name ticket left _ => Remains servers late (some name) left ∧ name ∉ left ∧
      ∃ server, servers name = some server ∧ Asks server.calls ticket
  | .returned _ => Remains servers late none []

theorem Remains.goes {asked : Option String} {left : List String} {next : Server}
    (h : Remains servers late asked left) (hthere : servers name = some server)
    (hgoes : server.Goes next) :
    Remains (Function.update servers name (some next)) late asked left where
  distinct := h.distinct
  there other hother := by
    obtain ⟨found, hfound, hasks⟩ := h.there other hother
    by_cases hsame : other = name
    · subst hsame
      obtain rfl := Option.some.inj (hthere.symm.trans hfound)
      exact ⟨next, Function.update_self .., fun ticket => fun hask =>
        hasks ticket ((hgoes.asks ticket).1 hask)⟩
    · exact ⟨found, by rw [Function.update_of_ne hsame, hfound], hasks⟩
  rest other found hfound := by
    by_cases hsame : other = name
    · subst hsame
      rw [Function.update_self] at hfound
      obtain rfl := Option.some.inj hfound
      exact (h.rest other server hthere).imp_right (Or.imp_right (Or.imp_right hgoes.stopped))
    · rw [Function.update_of_ne hsame] at hfound
      exact h.rest other found hfound

/-- A topic that comes too late does not matter. -/
theorem Remains.insert {asked : Option String} {left : List String}
    (h : Remains servers late asked left) (hmissing : servers name = none)
    (hlate : late = some name) :
    Remains (Function.update servers name (some server)) late asked left where
  distinct := h.distinct
  there other hother := by
    obtain ⟨found, hfound, hasks⟩ := h.there other hother
    have hne : other ≠ name := by
      rintro rfl
      cases hmissing.symm.trans hfound
    exact ⟨found, by rw [Function.update_of_ne hne, hfound], hasks⟩
  rest other found hfound := by
    by_cases hsame : other = name
    · exact .inr (.inr (.inl (hsame ▸ hlate)))
    · rw [Function.update_of_ne hsame] at hfound
      exact h.rest other found hfound

namespace Close.Stands

variable {close : Close}

/-- An open topic goes on. -/
theorem goes {next : Server} (h : close.Stands servers late) (hthere : servers name = some server)
    (hgoes : server.Goes next) :
    close.Stands (Function.update servers name (some next)) late := by
  have hunasked : (∀ name server, servers name = some server → ∀ ticket, ¬Asks server.calls ticket) →
      ∀ other found, Function.update servers name (some next) other = some found →
        ∀ ticket, ¬Asks found.calls ticket := by
    intro hunasked other found hfound ticket hasks
    by_cases hsame : other = name
    · subst hsame
      rw [Function.update_self] at hfound
      obtain rfl := Option.some.inj hfound
      exact hunasked other server hthere ticket ((hgoes.asks ticket).1 hasks)
    · rw [Function.update_of_ne hsame] at hfound
      exact hunasked other found hfound ticket hasks
  cases close with
  | notYet | collecting => exact hunasked h
  | stopping | disconnecting | requesting | returned => exact Remains.goes h hthere hgoes
  | awaiting asked ticket left failure =>
    obtain ⟨hremains, hasked, found, hfound, hasks⟩ := h
    refine ⟨hremains.goes hthere hgoes, hasked, ?_⟩
    by_cases hsame : asked = name
    · subst hsame
      obtain rfl := Option.some.inj (hthere.symm.trans hfound)
      exact ⟨next, Function.update_self .., (hgoes.asks ticket).2 hasks⟩
    · exact ⟨found, by rw [Function.update_of_ne hsame, hfound], hasks⟩

/-- A topic is put among the open ones. When they have been taken down, it comes too late. -/
theorem insert (h : close.Stands servers late) (hmissing : servers name = none)
    (hserver : ∀ ticket, ¬Asks server.calls ticket)
    (hlate : close ≠ .notYet → late = some name) :
    close.Stands (Function.update servers name (some server)) late := by
  cases close with
  | notYet | collecting =>
    intro other found hfound
    by_cases hsame : other = name
    · subst hsame
      rw [Function.update_self] at hfound
      obtain rfl := Option.some.inj hfound
      exact hserver
    · rw [Function.update_of_ne hsame] at hfound
      exact h other found hfound
  | stopping | disconnecting | requesting | returned =>
    exact Remains.insert h hmissing (hlate nofun)
  | awaiting asked ticket left failure =>
    obtain ⟨hremains, hasked, found, hfound, hasks⟩ := h
    refine ⟨hremains.insert hmissing (hlate nofun), hasked, found, ?_, hasks⟩
    have hne : asked ≠ name := by
      rintro rfl
      cases hmissing.symm.trans hfound
    rw [Function.update_of_ne hne, hfound]

end Close.Stands

end CommitLog.Closing
