import CommitLog.Proofs.Closing.Kept
import CommitLog.Proofs.Closing.Whole
import CommitLog.Proofs.Topic.New

/-!
# What is left to do after closing

When closing has returned, the worker of each topic that was open by then has stopped, and nothing
becomes of the topic any more: it stays as it is (`Ended`), and no call can open another. What is
left is a caller that was about to open a topic when the flag was set. There is at most one
(`Reachable.exists_shut`), and nobody waits for it.
-/

namespace CommitLog.Closing

open CommitLog.Actor.Contention (AtRest)
open CommitLog.Topic (Task behaviour firstAttempt)

variable {root : Path} {config : Config} {env : Env} {scene next after : Scene}
  {server later : Server} {name : String} {result : Except LogError Unit}

/-! ## A topic whose worker has stopped -/

/-- What is left of a topic whose worker has stopped: nothing more is run, and its partitions stay
as they are. -/
structure Server.Rests (server later : Server) : Prop where
  stopped : later.worker = .stopped
  ran : later.ran = server.ran
  partitions : later.topic.partitions = server.topic.partitions

namespace Server.Rests

theorem refl (h : server.worker = .stopped) : server.Rests server := ⟨h, rfl, rfl⟩

variable (h : server.Rests later)

include h

theorem arrive (task : Task) : server.Rests (later.arrive (.run task)) :=
  ⟨h.stopped, h.ran, h.partitions⟩

theorem mapTopic {change : Topic → Topic}
    (hchange : (change later.topic).partitions = later.topic.partitions) :
    server.Rests (later.mapTopic change) := ⟨h.stopped, h.ran, hchange.trans h.partitions⟩

theorem acts {last : Server} (hstep : Actor.Contention.Step behaviour (later.within env) last) :
    server.Rests last ∧ last.resource.2 = env := by
  have hover : (later.within env).worker.Over := by
    show later.worker.Over
    rw [h.stopped]
    trivial
  obtain ⟨-, hran, -, hresource⟩ := hstep.of_over hover
  refine ⟨⟨stopped_of_step hstep h.stopped, hran.trans h.ran, ?_⟩, by rw [hresource]; rfl⟩
  unfold Server.topic
  rw [hresource]
  exact h.partitions

end Server.Rests

/-! ## The topic that is opened too late -/

namespace Scene

/-- A caller is about to open a topic: it has found the channel open for the second time, and the
topic is not open. -/
def IsLate (scene : Scene) (name : String) : Prop :=
  ∃ id call stage, scene.callers id = some (call, stage) ∧ stage.IsPast ∧ call.name = name ∧
    scene.servers name = none

/-- The scene in which the flag has just been set. -/
def shut (scene : Scene) : Scene :=
  { scene with close := .collecting, late := scene.latecomer? }

end Scene

/-- Only one caller has its turn, so at most one topic is about to be opened. -/
theorem Kept.latecomer_eq_some_iff (h : Kept scene) :
    scene.latecomer? = some name ↔ scene.IsLate name := by
  constructor
  · intro hlate
    simp only [Scene.latecomer?, Option.bind_eq_bind, Option.bind_eq_some_iff] at hlate
    obtain ⟨id, -, ⟨call, stage⟩, hcaller, hpast⟩ := hlate
    split at hpast
    next hstage =>
      obtain rfl := Option.some.inj hpast
      exact ⟨id, call, stage, hcaller, hstage.1, rfl, Option.isNone_iff_eq_none.1 hstage.2⟩
    next => cases hpast
  · rintro ⟨id, call, stage, hcaller, hpast, rfl, hmissing⟩
    simp [Scene.latecomer?, h.turn id call stage hcaller hpast.hasTurn, hcaller, hpast, hmissing]

theorem Reachable.kept (h : Reachable root config env scene) : Kept scene := by
  induction h with
  | start => exact kept_start root config env
  | step _ hstep ih => exact ih.step hstep

/-- A step sets the flag, or leaves it and what is known of late topics as they are. -/
theorem Step.shut_or (h : Step scene next) :
    scene.close = .notYet ∧ next = scene.shut ∨
      next.closed = scene.closed ∧ next.late = scene.late := by
  cases h with
  | swaps isOpen => exact .inl ⟨isOpen, rfl⟩
  | collects stage | stops stage | disconnects stage | turns stage | requests stage
  | isTold stage | ends stage => exact .inr ⟨by unfold Scene.closed; rw [stage], rfl⟩
  | _ => exact .inr ⟨rfl, rfl⟩

/-- **A run at the step that sets the flag.** The one topic that is known to be late is the one that
a caller was about to open. -/
theorem Reachable.exists_shut (h : Reachable root config env scene) (hclosed : scene.closed = true) :
    ∃ before, Reachable root config env before ∧ before.close = .notYet ∧
      Leads before.shut scene ∧ ∀ name, scene.late = some name ↔ before.IsLate name := by
  induction h with
  | start => cases hclosed
  | @step scene next hreach hstep ih =>
    rcases hstep.shut_or with ⟨hopen, rfl⟩ | ⟨hsame, hlate⟩
    · exact ⟨scene, hreach, hopen, .refl, fun name => hreach.kept.latecomer_eq_some_iff⟩
    · obtain ⟨before, hbefore, hopen, hleads, hname⟩ := ih (hsame ▸ hclosed)
      exact ⟨before, hbefore, hopen, hleads.tail hstep, fun name => by rw [hlate, hname]⟩

/-! ## After closing -/

/-- What is left of a channel when closing has returned. -/
structure Ended (scene after : Scene) : Prop where
  close : after.close = scene.close
  late : after.late = scene.late
  /-- A topic that is open then rests, unless it was late. -/
  rests : ∀ name server, after.servers name = some server → scene.late = some name ∨
    ∃ earlier, scene.servers name = some earlier ∧ earlier.Rests server
  disk : scene.late = none → after.env.disk = scene.env.disk

theorem ended_refl (h : Kept scene) (hreturned : scene.close = .returned result) :
    Ended scene scene where
  close := rfl
  late := rfl
  rests name server hserver := by
    have hremains := h.stands
    rw [hreturned] at hremains
    rcases hremains.rest name server hserver with hleft | hasked | hlate | hstopped
    · cases hleft
    · cases hasked
    · exact .inl hlate
    · exact .inr ⟨server, hserver, .refl hstopped⟩
  disk _ := rfl

namespace Ended

variable (h : Ended scene after)

include h

/-- Something is done to an open topic, which leaves it as it is if it rests. -/
theorem put {env : Env} (hthere : after.servers name = some server)
    (hrests : ∀ earlier : Server, earlier.Rests server →
      earlier.Rests later ∧ env.disk = after.env.disk) :
    Ended scene { after.put name later with env } where
  close := h.close
  late := h.late
  rests other found hfound := by
    by_cases hsame : other = name
    · subst hsame
      rw [Scene.servers_put] at hfound
      obtain rfl := Option.some.inj hfound
      exact (h.rests other server hthere).imp_right fun ⟨earlier, hearlier, hrest⟩ =>
        ⟨earlier, hearlier, (hrests earlier hrest).1⟩
    · rw [Scene.servers_put_of_ne _ _ hsame] at hfound
      exact h.rests other found hfound
  disk hnone := by
    rcases h.rests name server hthere with hlate | ⟨earlier, -, hrest⟩
    · rw [hnone] at hlate
      cases hlate
    · exact (hrests earlier hrest).2.trans (h.disk hnone)

/-- A late topic is put among the open ones. -/
theorem put_late (hlate : after.late = some name) : Ended scene (after.put name later) where
  close := h.close
  late := h.late
  rests other found hfound := by
    by_cases hsame : other = name
    · exact .inl (by rw [← h.late, hlate, hsame])
    · rw [Scene.servers_put_of_ne _ _ hsame] at hfound
      exact h.rests other found hfound
  disk := h.disk

/-- A late topic is being opened, whatever that does to the disk. -/
theorem with_env_late (hlate : after.late = some name) (env : Env) :
    Ended scene { after with env } where
  close := h.close
  late := h.late
  rests := h.rests
  disk hnone := by
    rw [← h.late, hlate] at hnone
    cases hnone

/-- A caller goes on. -/
theorem goto (id : Nat) (call : Call) (stage : Stage) : Ended scene (after.goto id call stage) :=
  ⟨h.close, h.late, h.rests, h.disk⟩

/-- **A step of anybody after closing.** -/
theorem step (hkept : Kept after) (hreturned : scene.close = .returned result)
    (hstep : Step after next) : Ended scene next := by
  have hclose := h.close.trans hreturned
  have hclosed : after.closed = true := after.closed_iff.2 (by rw [hclose]; nofun)
  -- whoever opens a topic was about to do so when the flag was set
  have hlate : ∀ {id call stage}, after.callers id = some (call, stage) → stage.Inserts →
      stage.IsPast → after.late = some call.name := fun hcaller hinserts hpast =>
    hkept.late hclosed _ _ _ hcaller hpast (hkept.missing _ _ _ hcaller hinserts)
  cases hstep with
  | calls | refused | passes | finds | misses | queues | turnsBack | stays | findsOpened
  | missesAgain | hears => exact h.goto ..
  | takesTurn | leaves | givesUp => exact ⟨h.close, h.late, h.rests, h.disk⟩
  | opens stage | fails stage =>
    exact (h.with_env_late (hlate stage trivial trivial) _).goto ..
  | inserts stage => exact (h.put_late (hlate stage trivial trivial)).goto ..
  | submits stage there => exact (h.put there fun _ hrest => ⟨hrest.arrive _, rfl⟩).goto ..
  | others there => exact h.put there fun _ hrest => ⟨hrest.arrive _, rfl⟩
  | consumes there => exact h.put there fun _ hrest => ⟨hrest.mapTopic rfl, rfl⟩
  | acts there goesOn =>
    refine h.put there fun _ hrest => ?_
    obtain ⟨hrests, hsame⟩ := hrest.acts goesOn
    exact ⟨hrests, by rw [hsame]⟩
  | ticks => exact ⟨h.close, h.late, h.rests, h.disk⟩
  | swaps stage | collects stage | stops stage | disconnects stage | turns stage | requests stage
  | isTold stage | ends stage =>
    rw [hclose] at stage
    cases stage

end Ended

/-- **After closing.** -/
theorem ended_of_leads (h : Reachable root config env scene)
    (hreturned : scene.close = .returned result) (hleads : Leads scene after) :
    Ended scene after := by
  induction hleads with
  | refl => exact ended_refl h.kept hreturned
  | tail hleads hstep ih => exact ih.step (h.leads hleads).kept hreturned hstep

/-! ## A call for a new topic -/

/-- A channel without a topic. -/
def newScene : Scene where
  root := ⟨["", ""]⟩
  config := {}
  env := {}

/-- A caller that appends to the first topic. -/
def firstCall : Call := ⟨"t", .append [firstAttempt]⟩

/-- The caller comes to the point where it has found the channel open for the second time. -/
theorem leads_firstCall : Leads newScene
    ({ newScene with turn := some 0 }.goto 0 firstCall .relooking) :=
  .head (.calls rfl fun _ _ => by decide) (leads_relooking newScene 0 firstCall rfl rfl rfl)

/-- From there it opens the topic, and its attempt becomes a commit, whether the flag is set by then
or not. -/
theorem exists_firstCommit (close : Close) (late : Option String) :
    ∃ (commit : RawCommit) (server : Server) (env : Env), AtRest server ∧
      Leads ({ newScene with turn := some 0, close, late }.goto 0 firstCall .relooking)
        ({ { newScene with close, late }.put "t" server with env }.goto 0 firstCall
          (.returned (.ok (.results [.ok (.committed commit)])))) := by
  obtain ⟨topic, disk, h⟩ := Topic.exists_isNew
  obtain ⟨commit, served, env, hrun⟩ := h.exists_perform
  let scene : Scene := { newScene with close, late }
  have hopened := leads_opened scene 0 firstCall rfl rfl h.recovered
  let opened : Scene := scene.opened firstCall.name topic disk
  have hthere : opened.servers firstCall.name = some _ := Scene.servers_put ..
  obtain ⟨server, hrest, -, hanswered⟩ :=
    leads_answered 0 firstCall hthere (Actor.Contention.atRest_start ..) hrun
  refine ⟨commit, server, env, hrest, hopened.trans ?_⟩
  simpa [opened, scene, Scene.opened, Scene.put, firstCall] using hanswered

/-! ## Nothing is appended -/

/-- **Nothing is appended after closing**, but to a topic that a caller was about to open when the
flag was set. -/
theorem nothing_is_appended_after_close (h : Reachable root config env scene)
    (hreturned : scene.close = .returned result) :
    (∃ before, Reachable root config env before ∧ before.close = .notYet ∧
      Leads before.shut scene ∧ ∀ name, scene.late = some name ↔ before.IsLate name) ∧
    ∀ after, Leads scene after →
      (∀ name server, after.servers name = some server → scene.late = some name ∨
        ∃ earlier, scene.servers name = some earlier ∧ earlier.Rests server) ∧
      (scene.late = none → after.env.disk = scene.env.disk) := by
  have hclosed : scene.closed = true := scene.closed_iff.2 (by rw [hreturned]; nofun)
  refine ⟨h.exists_shut hclosed, fun after hleads => ?_⟩
  have hended := ended_of_leads h hreturned hleads
  exact ⟨hended.rests, hended.disk⟩

/-- A topic that was opened, appended to, and closed. -/
theorem nothing_is_appended_after_close_of_first_topic : ∃ scene commit,
    Reachable ⟨["", ""]⟩ {} {} scene ∧ scene.close = .returned (.ok ()) ∧
      scene.callers 0
        = some (firstCall, .returned (.ok (.results [.ok (.committed commit)]))) ∧
      ∀ after, Leads scene after →
        (∀ name server, after.servers name = some server → server.worker = .stopped) ∧
        after.env.disk = scene.env.disk := by
  obtain ⟨commit, server, env, hrest, hleads⟩ := exists_firstCommit .notYet none
  let answered : Scene := { newScene.put "t" server with env }.goto 0 firstCall
    (.returned (.ok (.results [.ok (.committed commit)])))
  have htold : answered.callers 0 = some (firstCall, .returned (.ok _)) := Scene.callers_goto ..
  have hanswered : Reachable ⟨["", ""]⟩ {} {} answered :=
    (Reachable.start.leads leads_firstCall).leads hleads
  have hnew : Shows { root := newScene.root, config := {} } newScene :=
    ⟨rfl, rfl, rfl, fun _ => rfl⟩
  have hput : Shows _ (newScene.put "t" server) := hnew.put server
  have hshows : Shows { root := newScene.root, config := {}, services := [("t", server.service)] }
      answered := ⟨rfl, rfl, rfl, hput.services⟩
  have hall : ∀ name found, answered.servers name = some found → AtRest found := by
    intro name found hfound
    change (newScene.put "t" server).servers name = some found at hfound
    by_cases hsame : name = "t"
    · subst hsame
      rw [Scene.servers_put] at hfound
      obtain rfl := Option.some.inj hfound
      exact hrest
    · rw [Scene.servers_put_of_ne _ _ hsame] at hfound
      cases hfound
  obtain ⟨servers, last, hclosed, -⟩ := leads_close hshows rfl (List.nodup_singleton _) hall
  have hreach := hanswered.leads hclosed
  obtain ⟨-, hafter⟩ := nothing_is_appended_after_close hreach rfl
  refine ⟨_, commit, hreach, rfl, htold, fun after hleads => ?_⟩
  obtain ⟨hrests, hdisk⟩ := hafter after hleads
  refine ⟨fun name found hfound => ?_, hdisk rfl⟩
  rcases hrests name found hfound with hlate | ⟨_, -, hrest⟩
  · cases hlate
  · exact hrest.stopped

/-- **A caller that was about to open a topic when the flag was set appends after closing.** -/
theorem topic_outlives_close : ∃ scene after commit server,
    Reachable ⟨["", ""]⟩ {} {} scene ∧ scene.close = .returned (.ok ()) ∧
      (∀ name, scene.servers name = none) ∧ Leads scene after ∧
      after.callers 0
        = some (firstCall, .returned (.ok (.results [.ok (.committed commit)]))) ∧
      after.servers "t" = some server ∧ server.worker = .idle := by
  let about : Scene := { newScene with turn := some 0 }.goto 0 firstCall .relooking
  have habout : Reachable ⟨["", ""]⟩ {} {} about := Reachable.start.leads leads_firstCall
  -- whoever closes finds no topic open, and is done
  let shut : Scene := { about with close := .collecting, late := about.latecomer? }
  have hcollects : Step shut { shut with close := .stopping [] [] } :=
    .collects rfl List.nodup_nil fun _ => ⟨nofun, nofun⟩
  have hclosed : Leads about { shut with close := .returned (.ok ()) } :=
    .head (.swaps rfl) (.head hcollects (.head (.turns rfl) (.single (@Step.ends _ none rfl))))
  -- the caller goes on
  obtain ⟨commit, server, env, hrest, hleads⟩ :=
    exists_firstCommit (.returned (.ok ())) about.latecomer?
  refine ⟨_, _, commit, server, habout.leads hclosed, rfl, fun _ => rfl, hleads,
    Scene.callers_goto .., ?_, hrest.idle⟩
  exact Scene.servers_put newScene "t" server

end CommitLog.Closing
