import CommitLog.Channel
import CommitLog.Delivery
import CommitLog.Disk.Edit
import CommitLog.Named
import CommitLog.Session.Recorder

/-!
# Sessions

A session is a program that uses logs on one disk: it opens channels under names, sends, submits
work whose answer it collects later, and subscribes recorders. After every step all actors and
deliveries go on as far as they can, so that a session has one outcome only.

A channel that is replaced or given up closes its queues when no submitted work holds it any more.
What was subscribed to it comes to its end; nothing else is done for it.

Opening a topic may take long. An attempt that is sent to a topic that is not open, and whose sender
does not wait, finds the channel open and goes on to open the topic; the program gets ahead of it
then. Topics of a channel are opened one at a time, so a step that needs a topic which is not open
waits, and so does one that asks for the result.
-/

namespace CommitLog

namespace Session

/-- A channel of a session, which has been given up or not. -/
structure Instance where
  channel : Channel
  /-- No name leads to the channel any more. -/
  given : Bool := false
  /-- Its queues have been closed for that reason. -/
  dropped : Bool := false

/-- Work that has been submitted and whose answer has not been collected. -/
inductive Job where
  /-- It could not be submitted. -/
  | failed (error : LogError)
  /-- It was submitted to a topic of a channel. -/
  | submitted (channel : Nat) (topic : String) (ticket : Actor.Ticket)

/-- An attempt whose sender has found a channel open and is opening the topic. -/
structure Opening where
  /-- The name under which the result is to be collected. -/
  job : String
  channel : Nat
  topic : String
  attempt : RawAttempt

/-- A delivery, and the channel that it belongs to. -/
structure Running where
  channel : Nat
  delivery : Delivery Recorder

/-- What a name of a subscription leads to. -/
structure Subscribed where
  running : Nat
  /-- Its end has not been waited for yet. -/
  held : Bool := true

end Session

/-- The state of a session. Channels and deliveries are numbered and stay; names lead to them. -/
structure Session where
  env : Env := {}
  instances : List Session.Instance := []
  running : List Session.Running := []
  channels : Named Nat := []
  jobs : Named Session.Job := []
  /-- Everything that was submitted to be collected later. -/
  submitted : List Session.Job := []
  /-- Topics that are being opened, in the order in which that was begun. -/
  openings : List Session.Opening := []
  tails : Named (Nat × HotTail) := []
  subscriptions : Named Session.Subscribed := []

namespace Session

/-- Why a step of a session fails. -/
inductive Fault where
  /-- A name leads to nothing. -/
  | noHandle
  | log (error : LogError)
  | disk (failure : Disk.Failure)
  /-- The answer would never come. -/
  | stuck
deriving Repr

/-- A step of a session. What it has changed stays changed when it fails. -/
abbrev Step := ExceptT Fault (StateM Session)

variable {α : Type}

/-- What a name leads to. -/
def find (things : Named α) (name : String) : Step α :=
  match things.lookup name with
  | some thing => return thing
  | none => throw .noHandle

/-- The result of an operation on a log. -/
def orFail : Except LogError α → Step α
  | .ok value => return value
  | .error e => throw (.log e)

/-! ## Going on -/

/-- Changes the channel of a number. -/
def putChannel (session : Session) (number : Nat) (channel : Channel) (env : Env) : Session :=
  { session with
    env
    instances := session.instances.modify number fun kept => { kept with channel } }

/-- Lets all actors go on. -/
def settleActors (session : Session) : Session :=
  (List.range session.instances.length).foldl (fun session number =>
    match session.instances[number]? with
    | some kept =>
      let (channel, env) := kept.channel.settle session.env
      session.putChannel number channel env
    | none => session) session

/-- The open topic of a delivery. -/
def serviceOf (session : Session) (running : Running) : Option Topic.Service := do
  let kept ← session.instances[running.channel]?
  kept.channel.service? running.delivery.topic

/-- Whether a round of a delivery is due. -/
def isDue (session : Session) (running : Running) : Bool :=
  (session.serviceOf running).any fun service => running.delivery.isDue service.wakeups

/-- Runs a round of a delivery if one is due. -/
def deliver (session : Session) (number : Nat) : Session :=
  match session.running[number]? with
  | none => session
  | some running =>
    match session.serviceOf running with
    | none => session
    | some service =>
      if !running.delivery.isDue service.wakeups then session
      else
        let (delivery, topic) :=
          running.delivery.round Recorder.subscriber service.topic
        { session with
          running := session.running.set number { running with delivery }
          instances := session.instances.modify running.channel fun kept =>
            { kept with
              channel := kept.channel.putService delivery.topic { service with topic } } }

/-- Runs a round of every delivery for which one is due. -/
def deliverAll (session : Session) : Session :=
  (List.range session.running.length).foldl deliver session

/-- Whether submitted work holds a channel. -/
def isHeld (session : Session) (number : Nat) (channel : Channel) : Bool :=
  (session.openings.any fun opening => opening.channel == number)
    || session.submitted.any fun job =>
      match job with
      | .submitted holder topic ticket =>
        holder == number && (channel.answer? topic ticket).isNone
      | .failed _ => false

/-- Closes the queues of channels that were given up and that no work holds. -/
def dropChannels (session : Session) : Session :=
  (List.range session.instances.length).foldl (fun session number =>
    match session.instances[number]? with
    | some kept =>
      if kept.given && !kept.dropped && !session.isHeld number kept.channel then
        let (channel, env) := kept.channel.closeQueues session.env
        { session with
          env
          instances := session.instances.set number { kept with channel, dropped := true } }
      else session
    | none => session) session

/-- Lets actors and deliveries go on, at most a number of times. -/
def settleWithin : Nat → Session → Session
  | 0, session => session
  | n + 1, session =>
    let session := session.settleActors.dropChannels
    if session.running.any session.isDue then settleWithin n session.deliverAll else session

/-- How many times deliveries may have to go on: for what is due already, for every batch that is
still to be handed over, and for every channel that is given up. -/
def rounds (session : Session) : Nat :=
  total (session.instances.map fun kept =>
    total (kept.channel.services.map fun (_, service) => service.outstanding) + 1) + 2

/-- Lets actors and deliveries go on until nothing can. -/
def settle (session : Session) : Session := settleWithin session.rounds session

/-- Lets actors and deliveries go on within a step. -/
def goOn : Step Unit := modify settle

/-! ## Topics that are being opened -/

/-- Notes what has become of an attempt that was sent without waiting. -/
def noteJob (session : Session) (name : String) (job : Job) : Session :=
  { session with
    jobs := Named.put session.jobs name job
    submitted := job :: session.submitted }

/-- Opens a topic, and submits the attempt that was sent to it. Whether the channel is closed has been
looked at before. -/
def finishOpening (session : Session) (opening : Opening) : Session :=
  match session.instances[opening.channel]? with
  | none => session
  | some kept =>
    let (result, channel, env) := { kept.channel with closed := false }.submitAppend opening.topic
      [opening.attempt] session.env
    let session := session.putChannel opening.channel { channel with closed := kept.channel.closed }
      env
    session.noteJob opening.job <|
      match result with
      | .ok ticket => .submitted opening.channel opening.topic ticket
      | .error e => .failed e

/-- Opens the topics that are being opened, one after another. -/
def finishOpenings (session : Session) : Session :=
  session.openings.foldl finishOpening { session with openings := [] }

/-- Waits for the topics that are being opened if this topic is needed and is not open. A closed
channel refuses without that. -/
def awaitOpenings (channel : Channel) (topic : String) : Step Unit := do
  unless channel.closed || (channel.service? topic).isSome do modify finishOpenings

/-! ## Channels -/

/-- The number of a channel, and the channel. -/
def channel (name : String) : Step (Nat × Channel) := do
  let session ← get
  let number ← find session.channels name
  match session.instances[number]? with
  | some kept => return (number, kept.channel)
  | none => throw .noHandle

/-- Gives a channel up. -/
def giveUp (session : Session) (number : Nat) : Session :=
  { session with
    instances := session.instances.modify number fun kept => { kept with given := true } }

/-- Opens a channel under a name. What was there under the name is given up. -/
def openChannel (name : String) (root : Path) (config : Config) : Step Channel := do
  let session ← get
  let (result, disk) := Channel.openAt root config session.env.disk
  set { session with env := { session.env with disk } }
  let channel ← orFail result
  modify fun session =>
    let session := match session.channels.lookup name with
      | some number => session.giveUp number
      | none => session
    { session with
      instances := session.instances ++ [{ channel := channel }]
      channels := Named.put session.channels name session.instances.length }
  return channel

/-- Gives up the channel of a name without closing it. -/
def dropChannel (name : String) : Step Unit := do
  let (number, _) ← channel name
  modify fun session =>
    { session.giveUp number with channels := Named.drop session.channels name }

/-- Closes the channel of a name. -/
def closeChannel (name : String) : Step Unit := do
  let (number, channel) ← channel name
  modify fun session =>
    let (channel, env) := channel.close session.env
    session.putChannel number channel env

/-- Does something with the channel of a name as it is. -/
def withChannel (name : String) (act : Channel → Env → Except LogError α × Channel × Env) :
    Step α := do
  let (number, channel) ← channel name
  let (result, channel, env) := act channel (← get).env
  modify fun session => session.putChannel number channel env
  orFail result

/-- Does something with the channel of a name. -/
def onChannel (name : String) (act : Channel → Env → Except LogError α × Channel × Env) :
    Step α := do
  let (_, channel) ← channel name
  unless channel.closed do modify finishOpenings
  withChannel name act

/-- Changes the disk. -/
def edit (change : Disk → Except Disk.Failure Unit × Disk) : Step Unit := do
  let session ← get
  let (result, disk) := change session.env.disk
  set { session with env := { session.env with disk } }
  match result with
  | .ok () => return ()
  | .error failure => throw (.disk failure)

/-! ## Work for the actors -/

/-- Submits work to a topic of a channel. -/
def submit (name topic : String)
    (act : Channel → Env → Except LogError Actor.Ticket × Channel × Env) : Step Job := do
  let (number, channel) ← channel name
  awaitOpenings channel topic
  try
    return .submitted number topic (← withChannel name act)
  catch
    | .log e => return .failed e
    | fault => throw fault

/-- The answer to submitted work. -/
def collect (job : Job) : Step Topic.Reply := do
  goOn
  match job with
  | .failed e => throw (.log e)
  | .submitted number topic ticket =>
    let kept := (← get).instances[number]?
    match kept.bind fun kept => kept.channel.answer? topic ticket with
    | some answer => orFail answer
    | none => throw .stuck

/-- Submits attempts. -/
def submitAppend (name topic : String) (attempts : List RawAttempt) : Step Job :=
  submit name topic fun channel env => channel.submitAppend topic attempts env

/-- The results of attempts. -/
def resultsOf (job : Job) : Step (List (Except LogError RawOutcome)) := do
  match ← collect job with
  | .results results => return results
  | _ => throw .stuck

/-- The result of one attempt. -/
def resultOf (job : Job) : Step RawOutcome := do
  match ← resultsOf job with
  | [result] => orFail result
  | _ => throw .stuck

/-- Appends attempts, and waits for their results. -/
def sendAll (name topic : String) (attempts : List RawAttempt) :
    Step (List (Except LogError RawOutcome)) := do
  resultsOf (← submitAppend name topic attempts)

/-- Appends an attempt, and waits for its result. -/
def send (name topic : String) (attempt : RawAttempt) : Step RawOutcome := do
  resultOf (← submitAppend name topic [attempt])

/-- Submits an attempt whose result is collected later. -/
def sendLater (name topic : String) (attempt : RawAttempt) (job : String) : Step Unit := do
  if (← get).openings.any fun opening => opening.job == job then modify finishOpenings
  let submitted ← submitAppend name topic [attempt]
  modify fun session => session.noteJob job submitted

/-- The same, without waiting for the topic to be opened. -/
def sendQueued (name topic : String) (attempt : RawAttempt) (job : String) : Step Unit := do
  let (number, channel) ← channel name
  let named := (← get).openings.any fun opening => opening.job == job
  if named || channel.closed || !channel.checkWritable.toBool || (channel.service? topic).isSome then
    sendLater name topic attempt job
  else
    modify fun session =>
      { session with openings := session.openings ++ [⟨job, number, topic, attempt⟩] }

/-- Waits for the result of an attempt that was submitted before. -/
def join (name : String) : Step RawOutcome := do
  modify finishOpenings
  let job ← find (← get).jobs name
  goOn
  modify fun session => { session with jobs := Named.drop session.jobs name }
  resultOf job

/-- The tails of a topic, in agreement with its commits. -/
def tailsOf (name topic : String) : Step Revisions := do
  match ← collect (← submit name topic fun channel env => channel.submit topic .tails env) with
  | .tails tails => return tails
  | _ => throw .stuck

end Session

end CommitLog
