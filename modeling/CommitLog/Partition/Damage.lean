import CommitLog.Frame

/-!
# Damage to partition files

A partition file is a run of whole frames. A crash may leave a torn last write behind them: a
frame that is cut short, or zeros where data never reached the disk. Everything else that is no
run of whole frames is damage.
-/

namespace CommitLog.Partition

/-- What a crash left behind the last whole frame. -/
inductive Torn where
  /-- A frame begins at `pos` and the file ends after `available` bytes of it. -/
  | cutShort (pos available : Nat)
  /-- From `pos` on there are only zeros. -/
  | zeros (count pos : Nat)
deriving DecidableEq, Repr, Inhabited

/-- What is said about a torn last write. -/
def Torn.message : Torn → String
  | .cutShort pos available =>
    "final frame at byte " ++ toString pos ++ " is cut short after " ++ toString available
      ++ " bytes"
  | .zeros count pos =>
    toString count ++ " zero bytes follow the final frame at byte " ++ toString pos

/-- What is wrong at a place of a partition file. -/
inductive Damage where
  /-- A frame holds no entry. -/
  | noEntries
  /-- The data there is no frame. -/
  | frame (error : Frame.Error)
  /-- A torn last write that is not to be repaired. -/
  | torn (leftover : Torn)
  /-- The file holds fewer entries than were committed. -/
  | entriesMissing (held committed : Nat)
  /-- The file ends before the frames that are to be read. -/
  | fileTooShort (length needed : Nat)
  /-- A frame to be read lies outside the stretch of the file that was looked at. -/
  | outsideWindow
  /-- The frame there is not the one that was recorded. -/
  | spanDiffers (found recorded : Frame.Span)
  /-- Damage that someone else put into words. -/
  | described (text : String)
deriving DecidableEq, Repr, Inhabited

/-- What is said about damage. -/
def Damage.message : Damage → String
  | .noEntries => "frame carries no entries"
  | .frame error => error.message
  | .torn leftover => leftover.message
  | .entriesMissing held committed =>
    "file holds " ++ toString held ++ " entries but " ++ toString committed ++ " were committed"
  | .fileTooShort length needed =>
    "file ends at byte " ++ toString length ++ " but frames extend to byte " ++ toString needed
  | .outsideWindow => "frame lies outside the mapped window"
  | .spanDiffers found recorded =>
    "frame holds " ++ toString found.entries ++ " entries in " ++ toString found.length
      ++ " bytes, index expects " ++ toString recorded.entries ++ " in "
      ++ toString recorded.length
  | .described text => text

end CommitLog.Partition
