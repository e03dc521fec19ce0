import CommitLog.Topic.Work

/-!
# Open topics

A topic that is open is served by an actor: whoever changes it or needs an answer that agrees with
the commits submits a unit of work. What the index and the files say can be read at any time.

Closing comes in two parts. Before it is requested, the queue takes no more, so that a unit which
waits for room gives up; then the actor runs its teardown.
-/

namespace CommitLog.Topic

/-- A topic with the actor that serves it. -/
structure Service where
  topic : Topic
  actor : Actor Task Reply

namespace Service

/-- Puts a topic into service. -/
def start (topic : Topic) (depth : Nat) : Service := ⟨topic, .start topic.name depth⟩

/-- Submits a unit of work. -/
def submit (service : Service) (task : Task) : Actor.Ticket × Service :=
  let (ticket, actor) := service.actor.submit task
  (ticket, { service with actor })

/-- Lets the actor go on until it has nothing to do or has to wait for room in the queue. -/
def settle (service : Service) (env : Env) : Service × Env :=
  let (actor, topic, env) := service.actor.settle behaviour (service.topic, env)
  (⟨topic, actor⟩, env)

/-- What a refused or failed unit means to its caller. -/
def failure (service : Service) : Actor.Error → LogError
  | .closed _ => .closed service.topic.name
  | error => .actor error

/-- The answer to a unit of work, if there is one yet. -/
def answer? (service : Service) (ticket : Actor.Ticket) : Option (Except LogError Reply) :=
  (service.actor.answer? ticket).map fun answer => answer.mapError service.failure

/-- Whether a consumer is to look at the queue. -/
def wakeups (service : Service) : Nat := service.topic.wakeups

/-- Changes the queue. -/
def mapQueue (service : Service) (change : Queue RawCommit → Queue RawCommit) : Service :=
  { service with topic := { service.topic with queue := change service.topic.queue } }

/-- Closes the queue. A unit that waits for room gives up first. -/
def closeQueue (service : Service) (env : Env) : Service × Env :=
  let stopped := service.mapQueue Queue.stop
  let (actor, topic, env) := stopped.actor.resume behaviour (stopped.topic, env)
  let released : Service := ⟨topic, actor⟩
  let ended := released.mapQueue Queue.disconnect
  ({ ended with topic := ended.topic.wake }, env)

/-- Requests the teardown, and lets the actor come to it. -/
def shut (service : Service) (env : Env) : Service × Env :=
  let (_, actor) := service.actor.requestClose .shutDown
  settle { service with actor } env

/-- How many batches the service may still hand over, at most. -/
def outstanding (service : Service) : Nat :=
  let ofTask : Task → Nat
    | .append attempts => attempts.length
    | .publish _ backlog => backlog.later.length + 1
    | _ => 0
  let ofEnvelope : Actor.Envelope Task → Nat
    | .run task => ofTask task + 1
    | .close _ => 1
  total (service.actor.waiting.map fun (_, envelope) => ofEnvelope envelope)
    + (service.actor.serving.map fun (_, task) => ofTask task).getD 0

end Service

end CommitLog.Topic
