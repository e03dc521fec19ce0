import CommitLog.Actor
import CommitLog.Topic.Publish

/-!
# Work on a topic

The units of work that the actor of a topic runs. Attempts are appended and their commits handed
to live consumers in one unit, so that consumers see commits in the order of the files; and a
consumer is registered in the same unit that reads the tails, so that everything behind those
tails reaches it and everything before them is in the files.
-/

namespace CommitLog.Topic

/-- A unit of work on a topic. -/
inductive Task where
  /-- Append attempts, and hand the commits to live consumers. -/
  | append (attempts : List RawAttempt)
  /-- Attempts that have been appended, with commits that still wait for room in the queue. -/
  | publish (results : List (Except LogError RawOutcome)) (backlog : Backlog)
  /-- Read the tails. -/
  | tails
  /-- Register a consumer. -/
  | register
  /-- Release the files, and bring consumers to an end. -/
  | shutDown

/-- The answer to a unit of work. -/
inductive Reply where
  | results (results : List (Except LogError RawOutcome))
  | tails (tails : Revisions)
  | registered (consumer : Queue.ConsumerId) (tails : Revisions)
  | shutDown

/-- A unit that has appended: it is done unless commits wait for room. -/
def published (results : List (Except LogError RawOutcome)) :
    Option Backlog → Actor.Served Task Reply
  | none => .done (.results results)
  | some backlog => .waiting (.publish results backlog)

/-- Runs a unit of work as far as it comes. -/
def perform (task : Task) (topic : Topic) (env : Env) : Actor.Served Task Reply × Topic × Env :=
  match task with
  | .append attempts =>
    let (results, topic, env) := appendAll attempts topic env
    let (backlog, topic) := topic.publish (commitsOf results)
    (published results backlog, topic, env)
  | .publish results backlog =>
    let (backlog, topic) := topic.resumePublishing backlog
    (published results backlog, topic, env)
  | .tails => (.done (.tails topic.tails), topic, env)
  | .register =>
    let (consumer, queue) := topic.queue.subscribe
    (.done (.registered consumer topic.tails), { topic with queue }, env)
  | .shutDown =>
    let (topic, env) := topic.shutDown env
    (.done .shutDown, topic, env)

/-- What the actor of a topic does to the topic and its surroundings. -/
def behaviour : Actor.Behaviour (Topic × Env) Task Reply where
  run task resource := perform task resource.1 resource.2
  teardown _ resource := (.shutDown, resource.1.shutDown resource.2)

end CommitLog.Topic
