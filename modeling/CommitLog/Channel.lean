import CommitLog.Replay
import CommitLog.Topic.Recover
import CommitLog.Topic.Service

/-!
# Channels

A channel is a log below one root directory. Its topics are opened when they are first used, and
stay open as long as the channel. Appends, registrations and consistent tails go through the actor
of the topic; reads go by its index. After closing, the channel refuses everything but the listing
of its topics.
-/

namespace CommitLog

/-- A log below a root directory. -/
structure Channel where
  root : Path
  config : Config
  /-- The open topics by their names. -/
  services : List (String × Topic.Service) := []
  closed : Bool := false

namespace Channel

/-! ## Opening -/

/-- Opens the log below a root. The root is made if the settings say so, and has to be there
otherwise. -/
def openAt (root : Path) (config : Config) (disk : Disk) : Except LogError Channel × Disk :=
  match config.problem? with
  | some problem => (.error (.invalidConfig problem), disk)
  | none =>
    if config.openFlags.contains .create then
      match disk.makeDirectories root with
      | (.ok (), disk) => (.ok { root, config }, disk)
      | (.error failure, disk) => (.error (.io failure root.display), disk)
    else if disk.isDirectory root then (.ok { root, config }, disk)
    else (.error (.io .noRoot root.display), disk)

/-- The channel as a term: its root, how many topics are open, and whether it is closed. -/
def display (channel : Channel) : String :=
  "FileChannel \x7b root: " ++ Text.quotedPath channel.root.display ++ ", topics: "
    ++ toString channel.services.length ++ ", closed: " ++ toString channel.closed ++ " \x7d"

/-- The names of the topics below the root, in order. -/
def topicNames (channel : Channel) (disk : Disk) : Except LogError (List String) :=
  (disk.directoriesIn channel.root).mapError fun failure => .io failure channel.root.display

/-! ## Topics -/

/-- The open topic of a name. -/
def service? (channel : Channel) (name : String) : Option Topic.Service :=
  channel.services.lookup name

/-- The channel with an open topic in place of what was there for its name. -/
def putService (channel : Channel) (name : String) (service : Topic.Service) : Channel :=
  { channel with
    services := (name, service) :: channel.services.filter fun (other, _) => other != name }

/-- Refuses to be used after closing. -/
def checkOpen (channel : Channel) : Except LogError Unit :=
  if channel.closed then .error (.closed channel.root.display) else .ok ()

/-- Refuses to be written to when it was opened for reading only. -/
def checkWritable (channel : Channel) : Except LogError Unit :=
  if channel.config.openFlags.contains .append then .ok ()
  else .error (.invalidOperation .withoutAppend)

/-- A topic, which is opened if it is not open yet. -/
def topic (channel : Channel) (name : String) (env : Env) :
    Except LogError Topic.Service × Channel × Env :=
  match channel.checkOpen with
  | .error e => (.error e, channel, env)
  | .ok () =>
    match channel.service? name with
    | some service => (.ok service, channel, env)
    | none =>
      match Topic.recover channel.config channel.root name env.disk with
      | (.error e, disk) => (.error e, channel, { env with disk })
      | (.ok topic, disk) =>
        let service := Topic.Service.start topic channel.config.actorMailbox
        (.ok service, channel.putService name service, { env with disk })

/-- Asks a topic for something that its index and files say. -/
def consult {α : Type} (channel : Channel) (name : String) (env : Env)
    (question : Topic → Disk → Except LogError α) : Except LogError α × Channel × Env :=
  match channel.topic name env with
  | (.error e, channel, env) => (.error e, channel, env)
  | (.ok service, channel, env) => (question service.topic env.disk, channel, env)

/-- Opens a topic and says how far its index reaches. -/
def openTopic (channel : Channel) (name : String) (env : Env) :
    Except LogError Revisions × Channel × Env :=
  channel.consult name env fun topic _ => .ok topic.tails

/-- Reads up to `count` commits of a topic from a position on. -/
def request (channel : Channel) (name : String) (start : Revision) (count : Nat) (env : Env) :
    Except LogError (List RawCommit) × Channel × Env :=
  channel.consult name env fun topic disk => topic.read disk start count

/-- Scans the files of a topic again. The answer is how far they reach. -/
def verify (channel : Channel) (name : String) (env : Env) :
    Except LogError Revisions × Channel × Env :=
  channel.consult name env Topic.verify

/-- Replays a topic to a subscriber from a checkpoint on: up to a bound, or up to the tails if there
is none. The subscriber comes back whatever becomes of the replay. -/
def load {σ : Type} (channel : Channel) (name : String) (subscriber : Subscriber σ)
    (start : Revisions) (stop : Option Revisions) (state : σ) (env : Env) :
    (Except LogError Revisions × σ) × Channel × Env :=
  match channel.topic name env with
  | (.error e, channel, env) => ((.error e, state), channel, env)
  | (.ok service, channel, env) =>
    let stop := stop.getD service.topic.tails
    (service.topic.replay env.disk subscriber Replay.chunkSize start stop state, channel, env)

/-! ## Work for the actors -/

/-- Submits a unit of work to a topic. -/
def submit (channel : Channel) (name : String) (task : Topic.Task) (env : Env) :
    Except LogError Actor.Ticket × Channel × Env :=
  match channel.topic name env with
  | (.error e, channel, env) => (.error e, channel, env)
  | (.ok service, channel, env) =>
    let (ticket, service) := service.submit task
    (.ok ticket, channel.putService name service, env)

/-- Submits attempts. A channel without the right to append refuses before it opens the topic. -/
def submitAppend (channel : Channel) (name : String) (attempts : List RawAttempt) (env : Env) :
    Except LogError Actor.Ticket × Channel × Env :=
  match channel.checkWritable with
  | .error e => (.error e, channel, env)
  | .ok () => channel.submit name (.append attempts) env

/-- The answer to a unit of work, if there is one yet. -/
def answer? (channel : Channel) (name : String) (ticket : Actor.Ticket) :
    Option (Except LogError Topic.Reply) :=
  (channel.service? name).bind fun service => service.answer? ticket

/-- Changes the open topics one after another. -/
def mapServices (change : Topic.Service → Env → Topic.Service × Env) :
    List (String × Topic.Service) → Env → List (String × Topic.Service) × Env
  | [], env => ([], env)
  | (name, service) :: later, env =>
    let (service, env) := change service env
    let (later, env) := mapServices change later env
    ((name, service) :: later, env)

/-- Changes all open topics. -/
def forServices (channel : Channel) (env : Env)
    (change : Topic.Service → Env → Topic.Service × Env) : Channel × Env :=
  let (services, env) := mapServices change channel.services env
  ({ channel with services }, env)

/-- Lets the actors go on until they have nothing to do or have to wait. -/
def settle (channel : Channel) (env : Env) : Channel × Env :=
  channel.forServices env Topic.Service.settle

/-! ## Closing -/

/-- Closes the queues, so that live deliveries come to an end. -/
def closeQueues (channel : Channel) (env : Env) : Channel × Env :=
  channel.forServices env Topic.Service.closeQueue

/-- Closes all topics. Closing once more changes nothing. -/
def close (channel : Channel) (env : Env) : Channel × Env :=
  if channel.closed then (channel, env)
  else
    let (channel, env) := ({ channel with closed := true } : Channel).closeQueues env
    channel.forServices env Topic.Service.shut

end Channel

end CommitLog
