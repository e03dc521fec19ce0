import CommitLog.Proofs.Actor.Rest
import CommitLog.Proofs.Closing.Machine
import CommitLog.Proofs.Lookup

/-!
# Calls and closing as rows of steps

Where nobody gets in between, a call finds or opens its topic as the channel does, and submits its
unit of work to it; and whoever closes the channel closes it as the channel does.
-/

namespace CommitLog.Closing

open Relation (TransGen)
open CommitLog.Actor.Contention (AtRest)
open CommitLog.Topic (Task Reply behaviour)

variable {scene : Scene} {id : Nat} {call : Call} {name : String} {server : Server}

/-! ## Finding a topic -/

@[simp]
theorem Scene.goto_goto (scene : Scene) (id : Nat) (call : Call) (stage next : Stage) :
    (scene.goto id call stage).goto id call next = scene.goto id call next := by
  simp [Scene.goto]

/-- A caller goes on that changes nothing. -/
theorem leads_goto {stage next : Stage}
    (h : Step (scene.goto id call stage) ((scene.goto id call stage).goto id call next)) :
    Leads (scene.goto id call stage) (scene.goto id call next) := by
  rw [Scene.goto_goto] at h
  exact .single h

/-- A caller that finds the channel open and its topic missing looks once more. -/
theorem leads_relooking (scene : Scene) (id : Nat) (call : Call) (hopen : scene.closed = false)
    (hmissing : scene.servers call.name = none) (hfree : scene.turn = none) :
    Leads (scene.goto id call .checking)
      ({ scene with turn := some id }.goto id call .relooking) := by
  have hlooking : Leads (scene.goto id call .checking) (scene.goto id call .looking) :=
    leads_goto (.passes (scene.callers_goto ..) hopen)
  have hsearching : Leads (scene.goto id call .looking) (scene.goto id call .searching) :=
    leads_goto (.misses (scene.callers_goto ..) hmissing)
  have hqueueing : Leads (scene.goto id call .searching) (scene.goto id call .queueing) :=
    leads_goto (.queues (scene.callers_goto ..) hmissing)
  let turned : Scene := { scene with turn := some id }
  have hturn : Step (scene.goto id call .queueing)
      ((turned.goto id call .queueing).goto id call .rechecking) :=
    .takesTurn (scene.callers_goto ..) hfree
  rw [Scene.goto_goto] at hturn
  have hrelooking : Leads (turned.goto id call .rechecking) (turned.goto id call .relooking) :=
    leads_goto (.stays (turned.callers_goto ..) hopen)
  exact (((hlooking.trans hsearching).trans hqueueing).tail hturn).trans hrelooking

/-- A caller that has its turn gives it away. -/
theorem leads_leaving (scene : Scene) (id : Nat) (call : Call) (hfree : scene.turn = none)
    (found : Except LogError Unit) :
    Leads ({ scene with turn := some id }.goto id call (.leaving found))
      (scene.goto id call (match found with
        | .ok () => .submitting
        | .error failure => .returned (.error failure))) := by
  have hsame : { scene with turn := none } = scene := by rw [← hfree]
  let turned : Scene := { scene with turn := some id }
  cases found with
  | ok =>
    have hstep : Step (turned.goto id call (.leaving (.ok ())))
      (({ scene with turn := none }.goto id call (.leaving (.ok ()))).goto id call .submitting) :=
      .leaves (turned.callers_goto ..)
    rw [Scene.goto_goto, hsame] at hstep
    exact .single hstep
  | error failure =>
    have hstep : Step (turned.goto id call (.leaving (.error failure)))
      (({ scene with turn := none }.goto id call (.leaving (.error failure))).goto id call
        (.returned (.error failure))) := .givesUp (turned.callers_goto ..)
    rw [Scene.goto_goto, hsame] at hstep
    exact .single hstep

/-- The scene when a topic has been opened. -/
def Scene.opened (scene : Scene) (name : String) (topic : Topic) (disk : Disk) : Scene :=
  let env := { scene.env with disk }
  { scene with env }.put name (.opened topic scene.config.actorMailbox env)

/-- A caller that has its turn opens its topic, whether the flag is set by then or not. -/
theorem leads_opened (scene : Scene) (id : Nat) (call : Call) (hfree : scene.turn = none)
    (hmissing : scene.servers call.name = none) {topic : Topic} {disk : Disk}
    (hrun : Topic.recover scene.config scene.root call.name scene.env.disk = (.ok topic, disk)) :
    Leads ({ scene with turn := some id }.goto id call .relooking)
      ((scene.opened call.name topic disk).goto id call .submitting) := by
  let turned : Scene := { scene with turn := some id }
  have hopening : Leads (turned.goto id call .relooking) (turned.goto id call .opening) :=
    leads_goto (.missesAgain (turned.callers_goto ..) hmissing)
  let read : Scene := { turned with env := { scene.env with disk } }
  have hinserting : Step (turned.goto id call .opening)
      ((read.goto id call .opening).goto id call (.inserting topic)) :=
    .opens (turned.callers_goto ..) hrun
  rw [Scene.goto_goto] at hinserting
  let opened : Scene := { scene.opened call.name topic disk with turn := some id }
  have hleaving : Step (read.goto id call (.inserting topic))
      ((opened.goto id call (.inserting topic)).goto id call (.leaving (.ok ()))) :=
    .inserts (read.callers_goto ..)
  rw [Scene.goto_goto] at hleaving
  exact ((hopening.tail hinserting).tail hleaving).trans
    (leads_leaving (scene.opened call.name topic disk) id call hfree (.ok ()))

/-- It fails to open it. -/
theorem leads_notOpened (scene : Scene) (id : Nat) (call : Call) (hfree : scene.turn = none)
    (hmissing : scene.servers call.name = none) {failure : LogError} {disk : Disk}
    (hrun : Topic.recover scene.config scene.root call.name scene.env.disk
      = (.error failure, disk)) :
    Leads ({ scene with turn := some id }.goto id call .relooking)
      ({ scene with env := { scene.env with disk } }.goto id call (.returned (.error failure))) := by
  let turned : Scene := { scene with turn := some id }
  have hopening : Leads (turned.goto id call .relooking) (turned.goto id call .opening) :=
    leads_goto (.missesAgain (turned.callers_goto ..) hmissing)
  let read : Scene := { scene with env := { scene.env with disk } }
  have hleaving : Step (turned.goto id call .opening)
      (({ read with turn := some id }.goto id call .opening).goto id call
        (.leaving (.error failure))) := .fails (turned.callers_goto ..) hrun
  rw [Scene.goto_goto] at hleaving
  exact (hopening.tail hleaving).trans (leads_leaving read id call hfree (.error failure))

/-! ## What a scene shows -/

/-- The topic with the actor that serves it. -/
def Server.service (server : Server) : Topic.Service := ⟨server.topic, server.actor⟩

/-- A scene shows a channel: the same topics are open, and the same actors serve them. -/
structure Shows (channel : Channel) (scene : Scene) : Prop where
  root : scene.root = channel.root
  config : scene.config = channel.config
  closed : scene.closed = channel.closed
  services : ∀ name, channel.service? name = (scene.servers name).map Server.service

namespace Shows

variable {channel : Channel}

/-- A topic is put among the open ones on both sides. -/
theorem put (h : Shows channel scene) (server : Server) :
    Shows (channel.putService name server.service) (scene.put name server) where
  root := h.root
  config := h.config
  closed := h.closed
  services other := by
    show (Named.put channel.services name server.service).lookup other = _
    rw [Named.lookup_put]
    split
    next hsame => rw [hsame, Scene.servers_put, Option.map_some]
    next hne =>
      rw [Scene.servers_put_of_ne _ _ hne]
      exact h.services other

end Shows

/-- What a caller does that has looked for its topic. -/
def Stage.ofFound : Except LogError Topic.Service → Stage
  | .ok _ => .submitting
  | .error failure => .returned (.error failure)

/-- **A call that nobody gets in the way of finds or opens its topic as the channel does.** -/
theorem leads_topic {channel : Channel} (hshows : Shows channel scene) (hfree : scene.turn = none)
    (id : Nat) (call : Call) : ∃ after : Scene,
      Leads (scene.goto id call .checking)
        (after.goto id call (.ofFound (channel.topic call.name scene.env).1)) ∧
      Shows (channel.topic call.name scene.env).2.1 after ∧
      after.env = (channel.topic call.name scene.env).2.2 ∧ after.turn = none := by
  unfold Channel.topic Channel.checkOpen
  by_cases hclosed : channel.closed = true
  · rw [if_pos hclosed, ← hshows.root]
    exact ⟨scene, leads_goto (.refused (scene.callers_goto ..) (hshows.closed.trans hclosed)),
      hshows, rfl, hfree⟩
  · have hopen : scene.closed = false := hshows.closed.trans (eq_false_of_ne_true hclosed)
    rw [if_neg hclosed, hshows.services call.name]
    cases hthere : scene.servers call.name with
    | some server =>
      have hlooking : Leads (scene.goto id call .checking) (scene.goto id call .looking) :=
        leads_goto (.passes (scene.callers_goto ..) hopen)
      exact ⟨scene, hlooking.trans (leads_goto (.finds (scene.callers_goto ..) trivial hthere)),
        hshows, rfl, hfree⟩
    | none =>
      have hrelooking := leads_relooking scene id call hopen hthere hfree
      rw [← hshows.config, ← hshows.root]
      dsimp only [Option.map_none]
      rcases hrun : Topic.recover scene.config scene.root call.name scene.env.disk
        with ⟨found, disk⟩
      cases found with
      | error failure =>
        exact ⟨_, hrelooking.trans (leads_notOpened scene id call hfree hthere hrun),
          ⟨hshows.root, hshows.config, hshows.closed, hshows.services⟩, rfl, hfree⟩
      | ok topic =>
        refine ⟨_, hrelooking.trans (leads_opened scene id call hfree hthere hrun), ?_, rfl, hfree⟩
        have hread : Shows channel { scene with env := { scene.env with disk } } :=
          ⟨hshows.root, hshows.config, hshows.closed, hshows.services⟩
        exact hread.put (.opened topic scene.config.actorMailbox { scene.env with disk })

/-! ## Being served -/

section Actors

variable {next : Server} (h : Actor.Contention.Step behaviour server next)

include h

/-- Who came to an actor stays known to have come. -/
theorem calls_prefix_of_step : server.calls <+: next.calls := by
  cases h with
  | arrives => exact List.prefix_append ..
  | _ => exact List.prefix_rfl

/-- An actor that somebody holds was held before. -/
theorem held_of_step (hheld : next.released = false) : server.released = false := by
  cases h with
  | releases => cases hheld
  | _ => exact hheld

end Actors

/-- **A row of steps of an actor** that nobody comes to is one of the scene. -/
theorem leads_acts {last : Server} (hthere : scene.servers name = some server)
    (hacts : TransGen (Actor.Contention.Step behaviour) (server.within scene.env) last)
    (hcalls : last.calls = server.calls) (hheld : last.released = false) :
    Leads scene { scene.put name last with env := last.resource.2 } := by
  have hfirst : ∀ {middle : Server},
      TransGen (Actor.Contention.Step behaviour) (server.within scene.env) middle →
      server.calls <+: middle.calls := by
    intro middle hmiddle
    induction hmiddle with
    | single hstep =>
      show (server.within scene.env).calls <+: _
      exact calls_prefix_of_step hstep
    | tail _ hstep ih => exact ih.trans (calls_prefix_of_step hstep)
  induction hacts with
  | single hstep => exact .single (.acts hthere hstep hcalls hheld)
  | @tail middle last hmiddle hstep ih =>
    have hlater := calls_prefix_of_step hstep
    rw [hcalls] at hlater
    have hsame : middle.calls = server.calls :=
      hlater.eq_of_length_le (hfirst hmiddle).length_le
    have hmoved := ih hsame (held_of_step hstep hheld)
    have hacted : Step { scene.put name middle with env := middle.resource.2 }
        { ({ scene.put name middle with env := middle.resource.2 } : Scene).put name last with
          env := last.resource.2 } :=
      .acts (Scene.servers_put ..) hstep (hcalls.trans hsame.symm) hheld
    refine hmoved.tail ?_
    simpa [Scene.put] using hacted

/-- What a topic settles to is what its actor settles to. -/
theorem settle_eq_of_actor {service : Topic.Service} {env : Env} {next : Server}
    (h : (next.actor, next.resource) = service.actor.settle behaviour (service.topic, env)) :
    service.settle env = (next.service, next.resource.2) := by
  unfold Topic.Service.settle
  rw [← h]
  rfl

/-- **A call whose actor is at rest is answered** as the topic serves it. -/
theorem leads_answered (id : Nat) (call : Call) (hthere : scene.servers call.name = some server)
    (hrest : AtRest server) {reply : Reply} {topic : Topic} {env : Env}
    (hrun : Topic.perform call.task server.topic scene.env = (.done reply, topic, env)) :
    ∃ next : Server, AtRest next ∧
      (server.service.submit call.task).2.settle scene.env = (next.service, env) ∧
      Leads (scene.goto id call .submitting)
        ({ scene.put call.name next with env }.goto id call (.returned (.ok reply))) := by
  have hwithin : AtRest (server.within scene.env) :=
    ⟨⟨hrest.kept.tidy, hrest.kept.submitted⟩, hrest.idle, hrest.nothing, hrest.unoccupied,
      hrest.isOpen, hrest.held, hrest.room⟩
  have hserves : behaviour.run call.task (server.within scene.env).resource
      = (.done reply, topic, env) := hrun
  obtain ⟨next, hacts, hnext, hcalls, hreturned, hsettle⟩ := hwithin.serves hserves
  have hresource : next.resource = (topic, env) :=
    congrArg Prod.snd (hsettle.trans (hwithin.settle_submit hserves))
  -- the call is submitted
  let ticket := server.actor.submitted
  let submitted := scene.put call.name (server.arrive (.run call.task))
  have hsubmits : Step (scene.goto id call .submitting)
      ((submitted.goto id call .submitting).goto id call (.awaiting ticket)) :=
    .submits (scene.callers_goto ..) hthere
  rw [Scene.goto_goto] at hsubmits
  -- the actor serves it
  have hserved : Leads (submitted.goto id call (.awaiting ticket))
      ({ scene.put call.name next with env }.goto id call (.awaiting ticket)) := by
    have harrived : (submitted.goto id call (.awaiting ticket)).servers call.name
        = some (server.arrive (.run call.task)) := Scene.servers_put ..
    have hserved := leads_acts harrived hacts hcalls hnext.held
    simpa [submitted, Scene.put, Scene.goto, hresource] using hserved
  -- the caller hears of it
  let served : Scene := { scene.put call.name next with env }
  have hhears : Step (served.goto id call (.awaiting ticket))
      ((served.goto id call (.awaiting ticket)).goto id call (.returned (.ok reply))) :=
    @Step.hears _ id call next ticket (.ok reply) (served.callers_goto ..) (Scene.servers_put ..)
      hreturned
  rw [Scene.goto_goto] at hhears
  refine ⟨next, hnext, ?_, (Relation.ReflTransGen.head hsubmits hserved).tail hhears⟩
  rw [settle_eq_of_actor hsettle, hresource]

/-! ## Closing -/

/-- Topics as they are listed, each with something to say of its server. -/
def Lists (holds : Server → Prop) (services : List (String × Topic.Service))
    (servers : String → Option Server) : Prop :=
  ∀ name service, (name, service) ∈ services →
    ∃ server, servers name = some server ∧ server.service = service ∧ holds server

theorem map_fst_mapServices (change : Topic.Service → Env → Topic.Service × Env)
    (services : List (String × Topic.Service)) (env : Env) :
    (Channel.mapServices change services env).1.map Prod.fst = services.map Prod.fst := by
  induction services generalizing env with
  | nil => rfl
  | cons first later ih => simp only [Channel.mapServices, List.map_cons, ih]

/-- Whoever closes changes one topic after another, as it changes one. -/
theorem leads_mapServices (change : Topic.Service → Env → Topic.Service × Env)
    (stage : List String → Close) {holds : Server → Prop} (after : Server → Prop)
    (hone : ∀ (scene : Scene) (name : String) (server : Server) (todo : List String),
      scene.servers name = some server → holds server → ∃ next env, after next ∧
        change server.service scene.env = (next.service, env) ∧
        Leads { scene with close := stage (name :: todo) }
          { scene.put name next with env, close := stage todo })
    (services : List (String × Topic.Service)) (scene : Scene)
    (hdistinct : (services.map Prod.fst).Nodup) (hlists : Lists holds services scene.servers) :
    ∃ servers env,
      Leads { scene with close := stage (services.map Prod.fst) }
        { scene with servers, env, close := stage [] } ∧
      Lists after (Channel.mapServices change services scene.env).1 servers ∧
      env = (Channel.mapServices change services scene.env).2 ∧
      ∀ name, name ∉ services.map Prod.fst → servers name = scene.servers name := by
  induction services generalizing scene with
  | nil => exact ⟨scene.servers, scene.env, .refl, nofun, rfl, fun _ _ => rfl⟩
  | cons first later ih =>
    obtain ⟨name, service⟩ := first
    rw [List.map_cons, List.nodup_cons] at hdistinct
    obtain ⟨server, hthere, rfl, hholds⟩ := hlists name service List.mem_cons_self
    obtain ⟨next, env, hafter, hchange, hfirst⟩ :=
      hone scene name server (later.map Prod.fst) hthere hholds
    let moved : Scene := { scene.put name next with env }
    have hrest : Lists holds later moved.servers := by
      intro other service hmem
      have hne : other ≠ name := by
        rintro rfl
        exact hdistinct.1 (List.mem_map.2 ⟨_, hmem, rfl⟩)
      show ∃ server, (scene.put name next).servers other = _ ∧ _
      rw [Scene.servers_put_of_ne _ _ hne]
      exact hlists other service (List.mem_cons_of_mem _ hmem)
    obtain ⟨servers, last, hleads, hmapped, hlast, hothers⟩ := ih moved hdistinct.2 hrest
    have hmap : Channel.mapServices change ((name, server.service) :: later) scene.env
        = ((name, next.service) :: (Channel.mapServices change later env).1,
          (Channel.mapServices change later env).2) := by
      simp only [Channel.mapServices, hchange]
    refine ⟨servers, last, hfirst.trans hleads, ?_, by rw [hmap, hlast], ?_⟩
    · rw [hmap]
      intro other service hmem
      rcases List.mem_cons.1 hmem with heq | hmem
      · obtain ⟨rfl, rfl⟩ := Prod.mk.inj heq
        exact ⟨next, (hothers other hdistinct.1).trans (Scene.servers_put ..), rfl, hafter⟩
      · exact hmapped other service hmem
    · intro other hother
      rw [List.map_cons, List.mem_cons, not_or] at hother
      rw [hothers other hother.2]
      exact Scene.servers_put_of_ne _ _ hother.1

section One

variable (scene : Scene) (hthere : scene.servers name = some server) (hrest : AtRest server)

include hthere hrest

/-- Whoever closes stops the queue of a topic, and lets its consumers come to their end. -/
theorem leads_closeQueue (todo all : List String) : ∃ (next : Server) (env : Env), AtRest next ∧
    server.service.closeQueue scene.env = (next.service, env) ∧
    Leads { scene with close := .stopping (name :: todo) all }
      { scene.put name next with env, close := .stopping todo all } := by
  let stopped := server.mapTopic fun topic => { topic with queue := topic.queue.stop }
  let ended := stopped.mapTopic fun topic =>
    { topic with queue := topic.queue.disconnect }.wake
  have hstops : Step { scene with close := .stopping (name :: todo) all }
      { scene.put name stopped with close := .disconnecting name todo all } := .stops rfl hthere
  have hdisconnects : Step { scene.put name stopped with close := .disconnecting name todo all }
      { ({ scene.put name stopped with close := .disconnecting name todo all } : Scene).put name
        ended with close := .stopping todo all } := .disconnects rfl (Scene.servers_put ..)
  refine ⟨ended, scene.env, ?_, ?_, (Relation.ReflTransGen.single hstops).tail ?_⟩
  · exact ⟨⟨hrest.kept.tidy, hrest.kept.submitted⟩, hrest.idle, hrest.nothing, hrest.unoccupied,
      hrest.isOpen, hrest.held, hrest.room⟩
  · simp only [Topic.Service.closeQueue, Topic.Service.mapQueue, Server.service, Actor.resume,
      hrest.unoccupied]
    rfl
  · simpa [Scene.put] using hdisconnects

/-- Whoever closes requests the teardown of a topic, and is told of it. -/
theorem leads_shut (left : List String) : ∃ (next : Server) (env : Env),
    server.service.shut scene.env = (next.service, env) ∧
    Leads { scene with close := .requesting (name :: left) none }
      { scene.put name next with env, close := .requesting left none } := by
  have hwithin : AtRest (server.within scene.env) :=
    ⟨⟨hrest.kept.tidy, hrest.kept.submitted⟩, hrest.idle, hrest.nothing, hrest.unoccupied,
      hrest.isOpen, hrest.held, hrest.room⟩
  obtain ⟨next, hacts, hcalls, hheld, hreturned, hsettle⟩ :=
    hwithin.parts (show behaviour.teardown Task.shutDown _
      = (Reply.shutDown, server.topic.shutDown scene.env) from rfl)
  let ticket := server.actor.submitted
  let requested : Scene := { scene.put name (server.arrive (.close .shutDown)) with
    close := .awaiting name ticket left none }
  have hrequests : Step { scene with close := .requesting (name :: left) none } requested :=
    .requests rfl hthere
  have harrived : requested.servers name = some (server.arrive (.close .shutDown)) :=
    Scene.servers_put ..
  have hshut := leads_acts harrived hacts hcalls hheld
  have htold : Step { requested.put name next with env := next.resource.2 }
      { ({ requested.put name next with env := next.resource.2 } : Scene) with
        close := .requesting left (firstFailure none (.ok Reply.shutDown)) } :=
    .isTold rfl (Scene.servers_put ..) hreturned
  refine ⟨next, next.resource.2, settle_eq_of_actor hsettle, ?_⟩
  have hall := (Relation.ReflTransGen.head hrequests hshut).tail htold
  simpa [requested, Scene.put, firstFailure] using hall

end One

/-- What is found among topics as they are listed. -/
theorem Lists.lookup {holds : Server → Prop} {services : List (String × Topic.Service)}
    {servers : String → Option Server} (h : Lists holds services servers)
    (hothers : name ∉ services.map Prod.fst → servers name = none) :
    services.lookup name = (servers name).map Server.service := by
  cases hlookup : services.lookup name with
  | none =>
    rw [hothers ?_, Option.map_none]
    rw [← isSome_lookup_iff, hlookup]
    exact Bool.false_ne_true
  | some service =>
    obtain ⟨server, hserver, rfl, -⟩ := h name service (mem_of_lookup hlookup)
    rw [hserver, Option.map_some]

namespace Shows

variable {channel : Channel} (h : Shows channel scene)

include h

/-- The topics that are listed are those that are open. -/
theorem mem_iff : name ∈ channel.services.map Prod.fst ↔ (scene.servers name).isSome = true := by
  rw [← isSome_lookup_iff, ← Option.isSome_map (f := Server.service)]
  exact Bool.eq_iff_iff.1 (congrArg Option.isSome (h.services name))

theorem lists {holds : Server → Prop} (hdistinct : (channel.services.map Prod.fst).Nodup)
    (hall : ∀ name server, scene.servers name = some server → holds server) :
    Lists holds channel.services scene.servers := by
  intro name service hmem
  have hshown := h.services name
  rw [show channel.service? name = some service from lookup_of_mem hdistinct hmem] at hshown
  obtain ⟨server, hserver, hservice⟩ := Option.map_eq_some_iff.1 hshown.symm
  exact ⟨server, hserver, hservice, hall name server hserver⟩

end Shows

/-- **Whoever closes a channel whose actors are at rest closes it as the channel does.** -/
theorem leads_close {channel : Channel} (hshows : Shows channel scene)
    (hopen : scene.close = .notYet) (hdistinct : (channel.services.map Prod.fst).Nodup)
    (hrest : ∀ name server, scene.servers name = some server → AtRest server) :
    ∃ servers env,
      Leads scene { scene with
        servers, env, close := .returned (.ok ()), late := scene.latecomer? } ∧
      Shows (channel.close scene.env).1 { scene with
        servers, env, close := .returned (.ok ()), late := scene.latecomer? } ∧
      env = (channel.close scene.env).2 := by
  have hnotClosed : ¬channel.closed = true := by
    rw [← hshows.closed, Scene.closed, hopen]
    exact Bool.false_ne_true
  let names := channel.services.map Prod.fst
  let shut : Scene := { scene with close := .collecting, late := scene.latecomer? }
  have hswaps : Step scene shut := .swaps hopen
  have hcollects : Step shut { shut with close := .stopping names names } :=
    .collects rfl hdistinct fun _ => hshows.mem_iff
  -- the queues
  obtain ⟨stopped, env, hstopped, hqueues, rfl, hothers⟩ := leads_mapServices
    Topic.Service.closeQueue (.stopping · names) AtRest
    (fun scene _ _ todo hthere hrest => leads_closeQueue scene hthere hrest todo names)
    channel.services shut hdistinct (hshows.lists hdistinct hrest)
  let mapped := Channel.mapServices Topic.Service.closeQueue channel.services scene.env
  let turned : Scene := { shut with servers := stopped, env := mapped.2 }
  have hturns : Step { turned with close := .stopping [] names }
      { turned with close := .requesting names none } := .turns rfl
  -- the actors
  have hkeys : mapped.1.map Prod.fst = names := map_fst_mapServices ..
  obtain ⟨servers, last, hshut, hactors, rfl, hrest⟩ := leads_mapServices
    Topic.Service.shut (.requesting · none) (fun _ => True)
    (fun scene _ _ left hthere hrest =>
      let ⟨next, env, hchange, hleads⟩ := leads_shut scene hthere hrest left
      ⟨next, env, trivial, hchange, hleads⟩)
    mapped.1 turned (by rw [hkeys]; exact hdistinct) hqueues
  rw [hkeys] at hshut
  let closed := Channel.mapServices Topic.Service.shut mapped.1 mapped.2
  have hends : Step { turned with servers, env := closed.2, close := .requesting [] none }
      { turned with servers, env := closed.2, close := .returned (.ok ()) } := @Step.ends _ none rfl
  have hclose : channel.close scene.env
      = ({ channel with services := closed.1, closed := true }, closed.2) := by
    unfold Channel.close
    rw [if_neg hnotClosed]
    rfl
  refine ⟨servers, closed.2, ?_, ?_, by rw [hclose]⟩
  · exact ((((Relation.ReflTransGen.single hswaps).tail hcollects).trans hstopped).tail
      hturns).trans (hshut.tail hends)
  · rw [hclose]
    refine ⟨hshows.root, hshows.config, rfl, fun name => hactors.lookup fun hmissing => ?_⟩
    rw [map_fst_mapServices, hkeys] at hmissing
    have hclosed : scene.servers name = none :=
      Option.not_isSome_iff_eq_none.1 fun hsome => hmissing (hshows.mem_iff.2 hsome)
    exact ((hrest name (by rw [hkeys]; exact hmissing)).trans (hothers name hmissing)).trans hclosed

end CommitLog.Closing
