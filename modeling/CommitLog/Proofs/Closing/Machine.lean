import CommitLog.Channel
import CommitLog.Proofs.Actor.Machine

/-!
# Closing a channel that is being used

Many callers use a channel at the same time, and one of them closes it in the middle of that. Here
every access to what they share is a step of its own: to the flag that says that the channel is
closed, to the open topics, to the turn to open a topic, to the queues, and to the actors. The steps
of all come in any order.

A caller looks at the flag, and then for its topic. If the topic is not open, the caller waits for
its turn, looks at both once more, opens the topic and puts it among the open ones. Then it submits
its unit of work, and waits for the answer. Whoever closes swaps the flag, takes down which topics
are open, closes their queues one after another, and then their actors. Who finds the flag set when
it is to close the channel is done, and takes no step.

The actors are those of `CommitLog.Actor.Contention`. A caller that gives up takes no more steps; a
topic that it was opening is opened nevertheless. No topic has its files touched by others while it
is opened, so that is one step, however long it takes.
-/

namespace CommitLog.Closing

open CommitLog.Actor (Ticket Envelope)
open CommitLog.Actor.Contention (Machine)
open CommitLog.Topic (Task Reply behaviour)

/-! ## Open topics -/

/-- An open topic with the actor that serves it, and all who use it. -/
abbrev Server := Machine (Topic × Env) Task Reply

namespace Server

/-- The topic as it is now. -/
def topic (server : Server) : Topic := server.resource.1

/-- A topic that has just been opened. -/
def opened (topic : Topic) (depth : Nat) (env : Env) : Server :=
  Machine.start topic.name depth (topic, env)

/-- Somebody comes with a submission. -/
def arrive (server : Server) (envelope : Envelope Task) : Server :=
  { server with
    actor := { server.actor with submitted := server.actor.submitted + 1 }
    calls := server.calls ++ [envelope] }.goto server.actor.submitted (.entry envelope)

/-- Changes the topic past the actor. -/
def mapTopic (server : Server) (change : Topic → Topic) : Server :=
  { server with resource := (change server.topic, server.resource.2) }

/-- The server with the surroundings as they are now. -/
def within (server : Server) (env : Env) : Server :=
  { server with resource := (server.topic, env) }

/-- What a refused or failed unit means to its caller. -/
def failure (server : Server) : Actor.Error → LogError
  | .closed _ => .closed server.topic.name
  | error => .actor error

end Server

/-! ## Callers -/

/-- What somebody wants of a topic. -/
structure Call where
  name : String
  task : Task

/-- How far a call has come. -/
inductive Stage where
  /-- Looks whether the channel is closed. -/
  | checking
  /-- Looks for the topic. -/
  | looking
  /-- Looks for the topic where it is to be opened. -/
  | searching
  /-- Waits for its turn to open a topic. -/
  | queueing
  /-- Has its turn, and looks whether the channel has been closed. -/
  | rechecking
  /-- Looks whether the topic has been opened. -/
  | relooking
  /-- Opens the topic. -/
  | opening
  /-- Puts the topic among the open ones. -/
  | inserting (topic : Topic)
  /-- Gives its turn away. -/
  | leaving (found : Except LogError Unit)
  /-- Submits its unit of work. -/
  | submitting
  | awaiting (ticket : Ticket)
  | returned (answer : Except LogError Reply)

namespace Stage

/-- Looks among the open topics before it has its turn. -/
def Looks : Stage → Prop
  | looking | searching => True
  | _ => False

/-- It is the turn of the caller to open a topic. -/
def HasTurn : Stage → Prop
  | rechecking | relooking | opening | inserting _ | leaving _ => True
  | _ => False

/-- The caller has found the channel open for the second time, and has not opened the topic yet. -/
def IsPast : Stage → Prop
  | relooking | opening | inserting _ => True
  | _ => False

/-- The caller has found the topic missing. -/
def Inserts : Stage → Prop
  | opening | inserting _ => True
  | _ => False

instance : DecidablePred IsPast := fun stage => by
  cases stage <;> unfold IsPast <;> infer_instance

end Stage

/-! ## Whoever closes -/

/-- How far closing has come. -/
inductive Close where
  /-- The flag is not set. -/
  | notYet
  /-- Takes down which topics are open. -/
  | collecting
  /-- Closes their queues, one after another. -/
  | stopping (todo all : List String)
  /-- The queue of a topic takes nothing more. Lets its consumers come to their end. -/
  | disconnecting (name : String) (todo all : List String)
  /-- Requests closing of the next actor. -/
  | requesting (left : List String) (failure : Option LogError)
  /-- Waits until the actor of a topic has closed. -/
  | awaiting (name : String) (ticket : Ticket) (left : List String) (failure : Option LogError)
  | returned (result : Except LogError Unit)

/-- What is reported in the end: the first failure that was not a refusal. -/
def firstFailure (failure : Option LogError) : Except Actor.Error Reply → Option LogError
  | .ok _ | .error (.closed _) => failure
  | .error error => failure.or (some (.actor error))

/-- The result of closing. -/
def resultOf : Option LogError → Except LogError Unit
  | none => .ok ()
  | some failure => .error failure

/-! ## All together -/

/-- A channel with all who use it. -/
structure Scene where
  root : Path
  config : Config
  env : Env
  servers : String → Option Server := fun _ => none
  callers : Nat → Option (Call × Stage) := fun _ => none
  /-- Whose turn it is to open a topic. -/
  turn : Option Nat := none
  close : Close := .notYet
  /-- The topic that a caller was about to open when the flag was set. No step looks at it. -/
  late : Option String := none

namespace Scene

/-- Whether the flag is set. -/
def closed (scene : Scene) : Bool :=
  match scene.close with
  | .notYet => false
  | _ => true

/-- A call at another stage. -/
def goto (scene : Scene) (id : Nat) (call : Call) (stage : Stage) : Scene :=
  { scene with callers := Function.update scene.callers id (some (call, stage)) }

/-- An open topic in another state. -/
def put (scene : Scene) (name : String) (server : Server) : Scene :=
  { scene with servers := Function.update scene.servers name (some server) }

@[simp]
theorem servers_put (scene : Scene) (name : String) (server : Server) :
    (scene.put name server).servers name = some server := Function.update_self ..

theorem servers_put_of_ne (scene : Scene) (server : Server) {name other : String}
    (h : other ≠ name) : (scene.put name server).servers other = scene.servers other :=
  Function.update_of_ne h ..

@[simp]
theorem callers_goto (scene : Scene) (id : Nat) (call : Call) (stage : Stage) :
    (scene.goto id call stage).callers id = some (call, stage) := Function.update_self ..

theorem callers_goto_of_ne (scene : Scene) (call : Call) (stage : Stage) {id other : Nat}
    (h : other ≠ id) : (scene.goto id call stage).callers other = scene.callers other :=
  Function.update_of_ne h ..

/-- The topic that a caller is about to open, past its second look at the flag. -/
def latecomer? (scene : Scene) : Option String := do
  let (call, stage) ← scene.callers (← scene.turn)
  if stage.IsPast ∧ (scene.servers call.name).isNone then some call.name else none

end Scene

open Scene in
/-- One access of a caller, of whoever closes, of an actor or of a consumer. -/
inductive Step (scene : Scene) : Scene → Prop where
  /-- An attempt needs the right to append, and is refused at once without. -/
  | calls {id : Nat} {call : Call} (isNew : scene.callers id = none)
      (allowed : ∀ attempts, call.task = .append attempts →
        scene.config.openFlags.contains .append = true) :
      Step scene (scene.goto id call .checking)
  | refused {id : Nat} {call : Call} (stage : scene.callers id = some (call, .checking))
      (closed : scene.closed = true) :
      Step scene (scene.goto id call (.returned (.error (.closed scene.root.display))))
  | passes {id : Nat} {call : Call} (stage : scene.callers id = some (call, .checking))
      (isOpen : scene.closed = false) :
      Step scene (scene.goto id call .looking)
  | finds {id : Nat} {call : Call} {now : Stage} {server : Server}
      (stage : scene.callers id = some (call, now)) (looks : now.Looks)
      (there : scene.servers call.name = some server) :
      Step scene (scene.goto id call .submitting)
  | misses {id : Nat} {call : Call} (stage : scene.callers id = some (call, .looking))
      (missing : scene.servers call.name = none) :
      Step scene (scene.goto id call .searching)
  | queues {id : Nat} {call : Call} (stage : scene.callers id = some (call, .searching))
      (missing : scene.servers call.name = none) :
      Step scene (scene.goto id call .queueing)
  | takesTurn {id : Nat} {call : Call} (stage : scene.callers id = some (call, .queueing))
      (free : scene.turn = none) :
      Step scene ({ scene with turn := some id }.goto id call .rechecking)
  | turnsBack {id : Nat} {call : Call} (stage : scene.callers id = some (call, .rechecking))
      (closed : scene.closed = true) :
      Step scene (scene.goto id call (.leaving (.error (.closed scene.root.display))))
  | stays {id : Nat} {call : Call} (stage : scene.callers id = some (call, .rechecking))
      (isOpen : scene.closed = false) :
      Step scene (scene.goto id call .relooking)
  | findsOpened {id : Nat} {call : Call} {server : Server}
      (stage : scene.callers id = some (call, .relooking))
      (there : scene.servers call.name = some server) :
      Step scene (scene.goto id call (.leaving (.ok ())))
  | missesAgain {id : Nat} {call : Call} (stage : scene.callers id = some (call, .relooking))
      (missing : scene.servers call.name = none) :
      Step scene (scene.goto id call .opening)
  | opens {id : Nat} {call : Call} {topic : Topic} {disk : Disk}
      (stage : scene.callers id = some (call, .opening))
      (recovers : Topic.recover scene.config scene.root call.name scene.env.disk
        = (.ok topic, disk)) :
      Step scene ({ scene with env := { scene.env with disk } }.goto id call (.inserting topic))
  | fails {id : Nat} {call : Call} {failure : LogError} {disk : Disk}
      (stage : scene.callers id = some (call, .opening))
      (recovers : Topic.recover scene.config scene.root call.name scene.env.disk
        = (.error failure, disk)) :
      Step scene ({ scene with env := { scene.env with disk } }.goto id call
        (.leaving (.error failure)))
  | inserts {id : Nat} {call : Call} {topic : Topic}
      (stage : scene.callers id = some (call, .inserting topic)) :
      Step scene ((scene.put call.name (.opened topic scene.config.actorMailbox scene.env)).goto id
        call (.leaving (.ok ())))
  | leaves {id : Nat} {call : Call} (stage : scene.callers id = some (call, .leaving (.ok ()))) :
      Step scene ({ scene with turn := none }.goto id call .submitting)
  | givesUp {id : Nat} {call : Call} {failure : LogError}
      (stage : scene.callers id = some (call, .leaving (.error failure))) :
      Step scene ({ scene with turn := none }.goto id call (.returned (.error failure)))
  | submits {id : Nat} {call : Call} {server : Server}
      (stage : scene.callers id = some (call, .submitting))
      (there : scene.servers call.name = some server) :
      Step scene ((scene.put call.name (server.arrive (.run call.task))).goto id call
        (.awaiting server.actor.submitted))
  | hears {id : Nat} {call : Call} {server : Server} {ticket : Ticket}
      {reply : Except Actor.Error Reply}
      (stage : scene.callers id = some (call, .awaiting ticket))
      (there : scene.servers call.name = some server)
      (returned : server.callers ticket = .returned reply) :
      Step scene (scene.goto id call (.returned (reply.mapError server.failure)))
  /-- Somebody submits who has found the topic before. -/
  | others {name : String} {task : Task} {server : Server}
      (there : scene.servers name = some server) :
      Step scene (scene.put name (server.arrive (.run task)))
  | swaps (isOpen : scene.close = .notYet) :
      Step scene { scene with close := .collecting, late := scene.latecomer? }
  | collects {all : List String} (stage : scene.close = .collecting) (distinct : all.Nodup)
      (exact : ∀ name, name ∈ all ↔ (scene.servers name).isSome) :
      Step scene { scene with close := .stopping all all }
  | stops {name : String} {todo all : List String} {server : Server}
      (stage : scene.close = .stopping (name :: todo) all)
      (there : scene.servers name = some server) :
      Step scene { scene.put name (server.mapTopic fun topic =>
          { topic with queue := topic.queue.stop }) with
        close := .disconnecting name todo all }
  | disconnects {name : String} {todo all : List String} {server : Server}
      (stage : scene.close = .disconnecting name todo all)
      (there : scene.servers name = some server) :
      Step scene { scene.put name (server.mapTopic fun topic =>
          { topic with queue := topic.queue.disconnect }.wake) with
        close := .stopping todo all }
  | turns {all : List String} (stage : scene.close = .stopping [] all) :
      Step scene { scene with close := .requesting all none }
  | requests {name : String} {left : List String} {failure : Option LogError} {server : Server}
      (stage : scene.close = .requesting (name :: left) failure)
      (there : scene.servers name = some server) :
      Step scene { scene.put name (server.arrive (.close .shutDown)) with
        close := .awaiting name server.actor.submitted left failure }
  | isTold {name : String} {ticket : Ticket} {left : List String} {failure : Option LogError}
      {server : Server} {reply : Except Actor.Error Reply}
      (stage : scene.close = .awaiting name ticket left failure)
      (there : scene.servers name = some server)
      (returned : server.callers ticket = .returned reply) :
      Step scene { scene with close := .requesting left (firstFailure failure reply) }
  | ends {failure : Option LogError} (stage : scene.close = .requesting [] failure) :
      Step scene { scene with close := .returned (resultOf failure) }
  /-- The actor of a topic, or somebody who waits for it, goes on. -/
  | acts {name : String} {server next : Server} (there : scene.servers name = some server)
      (goesOn : Actor.Contention.Step behaviour (server.within scene.env) next)
      (nobody : next.calls = server.calls) (held : next.released = false) :
      Step scene { scene.put name next with env := next.resource.2 }
  /-- A consumer registers, reads or is dropped. -/
  | consumes {name : String} {server : Server} {queue : Queue RawCommit}
      (there : scene.servers name = some server) :
      Step scene (scene.put name (server.mapTopic fun topic => { topic with queue }))
  | ticks {now : UInt64} : Step scene { scene with env := { scene.env with now } }

/-- What a channel can come to that was just opened, in whatever order the accesses come. -/
inductive Reachable (root : Path) (config : Config) (env : Env) : Scene → Prop where
  | start : Reachable root config env { root, config, env }
  | step {scene next : Scene} (h : Reachable root config env scene) (hstep : Step scene next) :
      Reachable root config env next

/-- One scene is followed by another. -/
abbrev Leads : Scene → Scene → Prop := Relation.ReflTransGen Step

variable {root : Path} {config : Config} {env : Env} {scene after : Scene}

theorem Reachable.leads (h : Reachable root config env scene) (hleads : Leads scene after) :
    Reachable root config env after := by
  induction hleads with
  | refl => exact h
  | tail _ hstep ih => exact ih.step hstep

end CommitLog.Closing
