import CommitLog.Proofs.Closing.Standing

/-!
# What every scene keeps

Only one caller at a time has its turn to open a topic, so at most one topic can still be opened
once the flag is set: that of a caller which was past its second look (`Kept.late`). The topics that
were open when they were taken down are closed one after another (`Kept.stands`), since an actor
that is asked once has an answer only when its worker has stopped.
-/

namespace CommitLog.Closing

open CommitLog.Actor (Ticket)
open CommitLog.Actor.Contention
open CommitLog.Topic (Reply behaviour)

variable {root : Path} {config : Config} {env : Env} {scene next : Scene}
  {server : Server} {name : String}

theorem Scene.closed_iff (scene : Scene) : scene.closed = true ↔ scene.close ≠ .notYet := by
  unfold Scene.closed
  cases scene.close <;> simp

theorem Stage.Inserts.hasTurn {stage : Stage} (h : stage.Inserts) : stage.HasTurn := by
  cases stage <;> trivial

theorem Stage.IsPast.hasTurn {stage : Stage} (h : stage.IsPast) : stage.HasTurn := by
  cases stage <;> trivial

/-- What every scene keeps. -/
structure Kept (scene : Scene) : Prop where
  parting : ∀ name server, scene.servers name = some server → Parting server
  /-- Only one caller has its turn. -/
  turn : ∀ id call stage, scene.callers id = some (call, stage) → stage.HasTurn →
    scene.turn = some id
  /-- A topic that is being opened is not open. -/
  missing : ∀ id call stage, scene.callers id = some (call, stage) → stage.Inserts →
    scene.servers call.name = none
  /-- Whoever is about to open a topic when the flag is set was past its second look by then. -/
  late : scene.closed = true → ∀ id call stage, scene.callers id = some (call, stage) →
    stage.IsPast → scene.servers call.name = none → scene.late = some call.name
  stands : scene.close.Stands scene.servers scene.late

theorem kept_start (root : Path) (config : Config) (env : Env) : Kept { root, config, env } where
  parting _ _ hthere := by cases hthere
  turn _ _ _ hcaller := by cases hcaller
  missing _ _ _ hcaller := by cases hcaller
  late hclosed := by cases hclosed
  stands _ _ hthere := by cases hthere

namespace Kept

variable {id : Nat} {call : Call} {stage : Stage}

section

variable (h : Kept scene)

include h

/-- A caller goes on that does not give its turn away. -/
theorem goto (hturn : stage.HasTurn → scene.turn = some id)
    (hmissing : stage.Inserts → scene.servers call.name = none)
    (hlate : scene.closed = true → stage.IsPast → scene.servers call.name = none →
      scene.late = some call.name) : Kept (scene.goto id call stage) where
  parting := h.parting
  turn other found now hfound hnow := by
    by_cases hsame : other = id
    · subst hsame
      rw [Scene.callers_goto] at hfound
      cases hfound
      exact hturn hnow
    · rw [Scene.callers_goto_of_ne _ _ _ hsame] at hfound
      exact h.turn other found now hfound hnow
  missing other found now hfound hnow := by
    by_cases hsame : other = id
    · subst hsame
      rw [Scene.callers_goto] at hfound
      cases hfound
      exact hmissing hnow
    · rw [Scene.callers_goto_of_ne _ _ _ hsame] at hfound
      exact h.missing other found now hfound hnow
  late hclosed other found now hfound hnow hnone := by
    by_cases hsame : other = id
    · subst hsame
      rw [Scene.callers_goto] at hfound
      cases hfound
      exact hlate hclosed hnow hnone
    · rw [Scene.callers_goto_of_ne _ _ _ hsame] at hfound
      exact h.late hclosed other found now hfound hnow hnone
  stands := h.stands

/-- The surroundings have no say in this. -/
theorem with_env (env : Env) : Kept { scene with env } :=
  ⟨h.parting, h.turn, h.missing, h.late, h.stands⟩

/-- Nobody has its turn, so it may be anybody's. -/
theorem with_turn (hfree : ∀ id call stage, scene.callers id = some (call, stage) → ¬stage.HasTurn)
    (turn : Option Nat) : Kept { scene with turn } :=
  ⟨h.parting, fun id call stage hcaller hturn => absurd hturn (hfree id call stage hcaller),
    h.missing, h.late, h.stands⟩

/-- A caller gives its turn away. -/
theorem leaves {found : Except LogError Unit}
    (hstage : scene.callers id = some (call, .leaving found)) (hleft : ¬stage.HasTurn) :
    Kept ({ scene with turn := none }.goto id call stage) := by
  have hgone : Kept (scene.goto id call stage) :=
    h.goto (fun hturn => absurd hturn hleft) (fun hinserts => absurd hinserts.hasTurn hleft)
      fun _ hpast => absurd hpast.hasTurn hleft
  have hturn := h.turn id call _ hstage trivial
  refine hgone.with_turn (fun other found now hfound hnow => ?_) none
  obtain rfl : id = other := Option.some.inj
    (hturn.symm.trans (hgone.turn other found now hfound hnow))
  rw [Scene.callers_goto] at hfound
  cases hfound
  exact hleft hnow

/-- An open topic goes on, and whoever closes may do so with it. -/
theorem put_with {next : Server} {close : Close} (hthere : scene.servers name = some server)
    (hparting : Parting next) (hset : close ≠ .notYet → scene.close ≠ .notYet)
    (hstands : close.Stands (Function.update scene.servers name (some next)) scene.late) :
    Kept { scene.put name next with close } where
  parting other found hfound := by
    by_cases hsame : other = name
    · subst hsame
      simp only [Scene.servers_put] at hfound
      cases hfound
      exact hparting
    · rw [Scene.servers_put_of_ne _ _ hsame] at hfound
      exact h.parting other found hfound
  turn := h.turn
  missing other found now hfound hnow := by
    have hnone := h.missing other found now hfound hnow
    have hne : found.name ≠ name := by
      rintro rfl
      cases hnone.symm.trans hthere
    exact (Scene.servers_put_of_ne _ _ hne).trans hnone
  late hclosed other found now hfound hnow hnone := by
    have hne : found.name ≠ name := by
      rintro rfl
      simp only [Scene.servers_put] at hnone
      cases hnone
    rw [Scene.servers_put_of_ne _ _ hne] at hnone
    exact h.late (scene.closed_iff.2 (hset ((Scene.closed_iff _).1 hclosed))) other found now hfound
      hnow hnone
  stands := hstands

theorem put {next : Server} (hthere : scene.servers name = some server)
    (hgoes : server.Goes next) : Kept (scene.put name next) :=
  h.put_with hthere hgoes.parting id (h.stands.goes hthere hgoes)

/-- A topic is put among the open ones that nobody else is opening. -/
theorem put_new (topic : Topic) (depth : Nat) (hmissing : scene.servers name = none)
    (halone : ∀ id call stage, scene.callers id = some (call, stage) → ¬stage.Inserts)
    (hlate : scene.closed = true → scene.late = some name) :
    Kept (scene.put name (.opened topic depth env)) where
  parting other found hfound := by
    by_cases hsame : other = name
    · subst hsame
      simp only [Scene.servers_put] at hfound
      cases hfound
      exact parting_start ..
    · rw [Scene.servers_put_of_ne _ _ hsame] at hfound
      exact h.parting other found hfound
  turn := h.turn
  missing id call stage hcaller hinserts := absurd hinserts (halone id call stage hcaller)
  late hclosed id call stage hcaller hpast hnone := by
    have hne : call.name ≠ name := by
      rintro rfl
      simp only [Scene.servers_put] at hnone
      cases hnone
    rw [Scene.servers_put_of_ne _ _ hne] at hnone
    exact h.late hclosed id call stage hcaller hpast hnone
  stands := by
    refine h.stands.insert hmissing ?_ fun hset => hlate (scene.closed_iff.2 hset)
    rintro ticket ⟨teardown, hasks⟩
    cases hasks

/-- A caller puts the topic that it has opened among the open ones. -/
theorem inserts {topic : Topic} (depth : Nat)
    (hstage : scene.callers id = some (call, .inserting topic)) :
    Kept ((scene.put call.name (.opened topic depth env)).goto id call (.leaving (.ok ()))) := by
  have hturn := h.turn id call _ hstage trivial
  have hmissing := h.missing id call _ hstage trivial
  have hleft : Kept (scene.goto id call (.leaving (.ok ()))) :=
    h.goto (fun _ => hturn) nofun nofun
  refine hleft.put_new topic depth hmissing (fun other found now hfound hinserts => ?_)
    fun hclosed => h.late hclosed id call _ hstage trivial hmissing
  -- whoever opens a topic has its turn, and it is the turn of this caller
  have hother := hleft.turn other found now hfound hinserts.hasTurn
  obtain rfl : id = other := Option.some.inj (hturn.symm.trans hother)
  rw [Scene.callers_goto] at hfound
  cases hfound
  exact hinserts

/-- The flag is set. -/
theorem swaps (hopen : scene.close = .notYet) :
    Kept { scene with close := .collecting, late := scene.latecomer? } where
  parting := h.parting
  turn := h.turn
  missing := h.missing
  late _ id call stage hcaller hpast hnone := by
    have hturn := h.turn id call stage hcaller hpast.hasTurn
    have hnone' : (scene.servers call.name).isNone = true := by
      rw [show scene.servers call.name = none from hnone]
      rfl
    have hcaller' : scene.callers id = some (call, stage) := hcaller
    show scene.latecomer? = _
    simp only [Scene.latecomer?, hturn, hcaller', Option.bind_eq_bind, Option.bind_some, hpast,
      hnone', and_self, if_true]
  stands := by
    have hstands := h.stands
    rw [hopen] at hstands
    exact hstands

/-- Whoever closes goes on. -/
theorem closes {close : Close} (hset : scene.close ≠ .notYet)
    (hstands : close.Stands scene.servers scene.late) : Kept { scene with close } where
  parting := h.parting
  turn := h.turn
  missing := h.missing
  late _ := h.late (scene.closed_iff.2 hset)
  stands := hstands

/-- Whoever closes requests closing of an actor, and nobody has before. -/
theorem requests {left : List String} {failure : Option LogError}
    (hstage : scene.close = .requesting (name :: left) failure)
    (hthere : scene.servers name = some server) :
    Kept { scene.put name (server.arrive (.close .shutDown)) with
      close := .awaiting name server.actor.submitted left failure } := by
  have hremains := h.stands
  rw [hstage] at hremains
  obtain ⟨hname, hdistinct⟩ := List.nodup_cons.1 hremains.distinct
  obtain ⟨found, hfound, hunasked⟩ := hremains.there name List.mem_cons_self
  obtain rfl := Option.some.inj (hthere.symm.trans hfound)
  have hparting := h.parting name server hthere
  have harrives : Actor.Contention.Step behaviour server (server.arrive (.close .shutDown)) :=
    .arrives (.close .shutDown) hparting.held
  have hnext : Parting (server.arrive (.close .shutDown)) :=
    hparting.step harrives hparting.held (.concat_close hunasked .shutDown)
  have hasks : Asks (server.arrive (.close .shutDown)).calls server.actor.submitted := by
    refine ⟨.shutDown, ?_⟩
    rw [hparting.kept.submitted]
    exact List.getElem?_concat_length
  refine h.put_with hthere hnext (fun _ => by rw [hstage]; nofun) ⟨⟨hdistinct, ?_, ?_⟩, hname, ?_⟩
  · intro other hother
    have hne : other ≠ name := fun hsame => hname (hsame ▸ hother)
    rw [Function.update_of_ne hne]
    exact hremains.there other (List.mem_cons_of_mem _ hother)
  · intro other found hother
    by_cases hsame : other = name
    · exact .inr (.inl (congrArg some hsame.symm))
    · rw [Function.update_of_ne hsame] at hother
      rcases hremains.rest other found hother with hleft | hasked | hrest
      · exact .inl ((List.mem_cons.1 hleft).resolve_left hsame)
      · cases hasked
      · exact .inr (.inr hrest)
  · exact ⟨_, Function.update_self .., hasks⟩

/-- Whoever closes is told that an actor has closed, whose worker has stopped then. -/
theorem isTold {ticket : Ticket} {left : List String} {failure failure' : Option LogError}
    {reply : Except Actor.Error Reply}
    (hstage : scene.close = .awaiting name ticket left failure)
    (hthere : scene.servers name = some server)
    (hreturned : server.callers ticket = .returned reply) :
    Kept { scene with close := .requesting left failure' } := by
  have hstands := h.stands
  rw [hstage] at hstands
  obtain ⟨hremains, hname, found, hfound, hasks⟩ := hstands
  obtain rfl := Option.some.inj (hthere.symm.trans hfound)
  have hstopped := (h.parting name server hthere).stopped_of_returned hasks hreturned
  refine h.closes (by rw [hstage]; nofun) ⟨hremains.distinct, hremains.there, ?_⟩
  intro other found hother
  rcases hremains.rest other found hother with hleft | hasked | hrest
  · exact .inl hleft
  · obtain rfl := Option.some.inj hasked
    obtain rfl := Option.some.inj (hthere.symm.trans hother)
    exact .inr (.inr (.inr hstopped))
  · exact .inr (.inr hrest)

/-- The topics that are open are taken down. -/
theorem collects {all : List String} (hstage : scene.close = .collecting) (hdistinct : all.Nodup)
    (hexact : ∀ name, name ∈ all ↔ (scene.servers name).isSome) :
    Kept { scene with close := .stopping all all } := by
  have hunasked := h.stands
  rw [hstage] at hunasked
  refine h.closes (by rw [hstage]; nofun) ⟨hdistinct, ?_, ?_⟩
  · intro name hname
    obtain ⟨server, hserver⟩ := Option.isSome_iff_exists.1 ((hexact name).1 hname)
    exact ⟨server, hserver, hunasked name server hserver⟩
  · intro name server hserver
    exact .inl ((hexact name).2 (by rw [hserver]; rfl))

end

/-- **A step of anybody.** -/
theorem step (h : Kept scene) (hstep : Step scene next) : Kept next := by
  cases hstep with
  | calls => exact h.goto nofun nofun nofun
  | refused stage => exact h.goto nofun nofun nofun
  | passes stage => exact h.goto nofun nofun nofun
  | finds stage => exact h.goto nofun nofun nofun
  | misses stage => exact h.goto nofun nofun nofun
  | queues stage => exact h.goto nofun nofun nofun
  | takesTurn stage free =>
    refine (h.with_turn (fun id call now hcaller hnow => ?_) _).goto (fun _ => rfl) nofun nofun
    cases free.symm.trans (h.turn id call now hcaller hnow)
  | turnsBack stage closed => exact h.goto (fun _ => h.turn _ _ _ stage trivial) nofun nofun
  | stays stage isOpen =>
    refine h.goto (fun _ => h.turn _ _ _ stage trivial) nofun fun hclosed => ?_
    rw [isOpen] at hclosed
    cases hclosed
  | findsOpened stage => exact h.goto (fun _ => h.turn _ _ _ stage trivial) nofun nofun
  | missesAgain stage missing =>
    exact h.goto (fun _ => h.turn _ _ _ stage trivial) (fun _ => missing)
      fun hclosed _ hnone => h.late hclosed _ _ _ stage trivial hnone
  | opens stage =>
    exact (h.with_env _).goto (fun _ => h.turn _ _ _ stage trivial)
      (fun _ => h.missing _ _ _ stage trivial)
      fun hclosed _ hnone => h.late hclosed _ _ _ stage trivial hnone
  | fails stage => exact (h.with_env _).goto (fun _ => h.turn _ _ _ stage trivial) nofun nofun
  | inserts stage => exact h.inserts _ stage
  | leaves stage | givesUp stage => exact h.leaves stage id
  | submits stage there =>
    exact (h.put there (Server.goes_arrive (h.parting _ _ there) _)).goto nofun nofun nofun
  | hears => exact h.goto nofun nofun nofun
  | others there => exact h.put there (Server.goes_arrive (h.parting _ _ there) _)
  | swaps isOpen => exact h.swaps isOpen
  | collects stage distinct exact_ => exact h.collects stage distinct exact_
  | stops stage there | disconnects stage there =>
    have hremains := h.stands
    rw [stage] at hremains
    have hgoes := Server.goes_mapTopic (h.parting _ _ there)
    exact h.put_with there (hgoes _).parting (fun _ => by rw [stage]; nofun)
      (hremains.goes there (hgoes _))
  | turns stage =>
    have hremains := h.stands
    rw [stage] at hremains
    exact h.closes (by rw [stage]; nofun) hremains
  | requests stage there => exact h.requests stage there
  | isTold stage there returned => exact h.isTold stage there returned
  | ends stage =>
    have hremains := h.stands
    rw [stage] at hremains
    exact h.closes (by rw [stage]; nofun) hremains
  | acts there goesOn nobody held =>
    exact (h.put there (Server.goes_acts (h.parting _ _ there) goesOn nobody held)).with_env _
  | consumes there => exact h.put there (Server.goes_mapTopic (h.parting _ _ there) _)
  | ticks => exact h.with_env _

end Kept

end CommitLog.Closing
