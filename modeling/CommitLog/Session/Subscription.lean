import CommitLog.Session

/-!
# Subscriptions of a session

Recorders take commits cold, hot, or first cold and then hot. A tail that was opened holds its
consumer until delivery is started from it or it is let go. A subscription that has ended keeps
its recorder, so that one can look at what it was given.
-/

namespace CommitLog.Session

/-! ## Cold -/

/-- Replays a topic to a recorder. The recorder comes back whatever becomes of the replay. -/
def replay (name topic : String) (start : Revisions) (stop : Option Revisions)
    (recorder : Recorder) : Step (Except LogError Revisions × Recorder) := do
  awaitOpenings (← channel name).2 topic
  let (number, channel) ← channel name
  let (answer, channel, env) :=
    channel.load topic Recorder.subscriber start stop recorder (← get).env
  modify fun session => session.putChannel number channel env
  return answer

/-- Replays a topic from the checkpoint of a recorder up to the tails. -/
def load (name topic : String) (recorder : Recorder) :
    Step (Except LogError Revisions × Recorder) :=
  replay name topic recorder.load none recorder

/-! ## Hot -/

/-- Registers a consumer with a topic. -/
def registerTail (name topic : String) : Step (Nat × HotTail) := do
  let (number, _) ← channel name
  match ← collect (← submit name topic fun channel env => channel.submit topic .register env) with
  | .registered consumer revisions => return (number, { topic, consumer, revisions })
  | _ => throw .stuck

/-- Removes the consumer of a tail. -/
def release (number : Nat) (tail : HotTail) : Step Unit :=
  modify fun session =>
    { session with
      instances := session.instances.modify number fun kept =>
        match kept.channel.service? tail.topic with
        | some service =>
          { kept with
            channel := kept.channel.putService tail.topic
              (service.mapQueue fun queue => queue.unsubscribe tail.consumer) }
        | none => kept }

/-- Starts delivery from a tail under the name of a subscription. -/
def startDelivery (id : String) (number : Nat) (tail : HotTail) (reached : Revisions)
    (recorder : Recorder) : Step Unit :=
  modify fun session =>
    { session with
      running := session.running ++ [⟨number, .start tail reached recorder⟩]
      subscriptions := Named.put session.subscriptions id { running := session.running.length } }

/-- Opens a tail under a name; one that had the name is let go. -/
def openTail (id name topic : String) : Step HotTail := do
  let (number, tail) ← registerTail name topic
  if let some (old, replaced) := (← get).tails.lookup id then release old replaced
  modify fun session => { session with tails := Named.put session.tails id (number, tail) }
  return tail

/-- Takes a tail from its name. -/
def takeTail (id : String) : Step (Nat × HotTail) := do
  let tail ← find (← get).tails id
  modify fun session => { session with tails := Named.drop session.tails id }
  return tail

/-- Starts delivery from a tail that was opened before. -/
def startTail (id : String) (recorder : Recorder) : Step String := do
  let (number, tail) ← takeTail id
  startDelivery id number tail recorder.load recorder
  return tail.topic

/-- Lets go of a tail. -/
def dropTail (id : String) : Step Unit := do
  let (number, tail) ← takeTail id
  release number tail

/-- An error of a log as a value. -/
def attempt {α : Type} (step : Step α) : Step (Except LogError α) := do
  try
    return .ok (← step)
  catch
    | .log e => return .error e
    | fault => throw fault

/-- Delivers every later commit to a recorder. A subscription that cannot start gives the recorder
back. -/
def subscribe (id name topic : String) (recorder : Recorder) :
    Step (Except (LogError × Recorder) Unit) := do
  match ← attempt (registerTail name topic) with
  | .error e => return .error (e, recorder)
  | .ok (number, tail) =>
    startDelivery id number tail recorder.load recorder
    return .ok ()

/-- Replays what was committed before, and delivers every later commit to a recorder. -/
def subscribeSourced (id name topic : String) (recorder : Recorder) :
    Step (Except (LogError × Recorder) Unit) := do
  match ← attempt (registerTail name topic) with
  | .error e => return .error (e, recorder)
  | .ok (number, tail) =>
    let (result, recorder) ← replay name topic recorder.load (some tail.revisions) recorder
    match result with
    | .error e =>
      release number tail
      return .error (e, recorder)
    | .ok reached =>
      startDelivery id number tail reached recorder
      return .ok ()

/-! ## Subscriptions -/

/-- The delivery of a subscription, and whether its end has not been waited for yet. -/
def subscription (id : String) : Step (Subscribed × Delivery Recorder) := do
  let session ← get
  let subscribed ← find session.subscriptions id
  match session.running[subscribed.running]? with
  | some running => return (subscribed, running.delivery)
  | none => throw .noHandle

/-- A subscription whose end has not been waited for yet. -/
def heldSubscription (id : String) : Step (Subscribed × Delivery Recorder) := do
  let found ← subscription id
  if found.1.held then return found else throw .noHandle

/-- Asks a delivery to stop. -/
def cancelDelivery (number : Nat) : Step Unit := do
  modify fun session =>
    { session with
      running := session.running.modify number fun running =>
        { running with delivery := running.delivery.cancel } }
  goOn

/-- Cancels a subscription. The answer is whether it has ended. -/
def cancel (id : String) : Step Bool := do
  let (subscribed, _) ← heldSubscription id
  cancelDelivery subscribed.running
  let (_, delivery) ← subscription id
  return delivery.isFinished

/-- Waits for the end of a subscription. The answer is the delivery, and why it has stopped. -/
def await (id : String) : Step (Delivery Recorder × Option LogError) := do
  goOn
  let (subscribed, delivery) ← heldSubscription id
  modify fun session =>
    { session with
      subscriptions := Named.put session.subscriptions id { subscribed with held := false } }
  match delivery.ending with
  | some (.stopped error) => return (delivery, error)
  | some .panicked => throw (.log (.subscriber .deliveryFailed))
  | none => throw .stuck

/-- Cancels a subscription and waits for its end. -/
def stop (id : String) : Step (Delivery Recorder × Option LogError) := do
  let (subscribed, _) ← heldSubscription id
  cancelDelivery subscribed.running
  await id

end CommitLog.Session
