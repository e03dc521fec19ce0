import CommitLog.Subscriber

/-!
# Recorders

A recorder is a subscriber that keeps everything it is given. It can be told to refuse a commit, to
panic at one, or to refuse to save a checkpoint, so that one can watch what a log makes of that.
-/

namespace CommitLog

/-- What a recorder has been given, and when it is to fail. -/
structure Recorder where
  /-- The checkpoint that it begins with. -/
  start : Revisions := .empty
  /-- It refuses the commit that ends here. -/
  failAt : Option Revision := none
  /-- It panics at the commit that ends here. -/
  panicAt : Option Revision := none
  /-- It refuses to save a checkpoint when it has saved this many. -/
  failSave : Option Nat := none
  seen : List RawCommit := []
  saves : List Revisions := []
deriving DecidableEq, Repr, Inhabited

namespace Recorder

/-- The checkpoint that it has saved last. -/
def saved? (recorder : Recorder) : Option Revisions := recorder.saves.getLast?

/-- Resumes from the last checkpoint. -/
def load (recorder : Recorder) : Revisions := recorder.saved?.getD recorder.start

/-- Receives a commit. -/
def handle (commit : RawCommit) (recorder : Recorder) : Handled × Recorder :=
  if recorder.failAt = some commit.actual then
    (.refused (.subscriber (.reported ("refused " ++ commit.actual.display))), recorder)
  else if recorder.panicAt = some commit.actual then (.panicked, recorder)
  else (.taken, { recorder with seen := recorder.seen ++ [commit] })

/-- Keeps a checkpoint. -/
def save (revisions : Revisions) (recorder : Recorder) : Except LogError Unit × Recorder :=
  if recorder.failSave = some recorder.saves.length then
    (.error (.subscriber (.reported ("save " ++ toString recorder.saves.length ++ " refused"))),
      recorder)
  else (.ok (), { recorder with saves := recorder.saves ++ [revisions] })

/-- The recorder as a subscriber. -/
def subscriber : Subscriber Recorder where
  load recorder := (recorder.load, recorder)
  handle := handle
  save := save

end Recorder

end CommitLog
