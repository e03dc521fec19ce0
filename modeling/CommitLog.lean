import CommitLog.Actor.Session
import CommitLog.Commit.Json
import CommitLog.Config.Json
import CommitLog.Frame.Masked
import CommitLog.Proofs.Handover.Seamless
import CommitLog.Proofs.Topic.Damage
import CommitLog.Proofs.Topic.PartlyLanded
import CommitLog.Proofs.Topic.Race
import CommitLog.Proofs.Queue.Refinement
import CommitLog.Proofs.Topic.ColdRead
import CommitLog.Queue.Session
import CommitLog.Reaction.Json
import CommitLog.Schema.Registry
import CommitLog.Session.Subscription
import CommitLog.Proofs.Queue.Shut
import CommitLog.Proofs.Queue.Attendance
import CommitLog.Proofs.Resuming.Trace
import CommitLog.Proofs.Resuming.Run
import CommitLog.Proofs.Resuming.Log
import CommitLog.Proofs.Resuming.Sessions
import CommitLog.Proofs.Resuming.Whole
import CommitLog.Proofs.Resuming.AtLeastOnce
import CommitLog.Proofs.Frame.Extension
import CommitLog.Proofs.Reaction
import CommitLog.Proofs.Queue.Contention.Slots
import CommitLog.Proofs.Actor.Serving
import CommitLog.Proofs.Schema.History
import CommitLog.Proofs.Schema.References
import CommitLog.Proofs.Schema.Inline
import CommitLog.Proofs.Schema.Canonical
import CommitLog.Proofs.Topic.Faults
import CommitLog.Proofs.Queue.Contention.Drained
import CommitLog.Proofs.Queue.Contention.Room
import CommitLog.Proofs.Queue.Blocking.AllOrNothing
import CommitLog.Proofs.Queue.Refusing.Whole
import CommitLog.Proofs.Survey.Verdict
import CommitLog.Proofs.Closing.Ended
import CommitLog.Proofs.Partition.PlainWalk
import CommitLog.Proofs.Reading.Whole
import CommitLog.Proofs.Opening.Whole
import CommitLog.Proofs.ColdReplay.Whole
import CommitLog.Proofs.Batching.Whole
import CommitLog.Proofs.Reporting.Delivery
import CommitLog.Proofs.Windowing.Whole
