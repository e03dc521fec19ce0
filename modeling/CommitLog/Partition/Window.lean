import CommitLog.Partition.Scan

/-!
# Windows of a read

Frames that are to be read are grouped into windows. A window takes as many frames as fit into a
bounded stretch of the file, and at least one.
-/

namespace CommitLog.Partition

/-- A stretch of a file that holds one frame or more, and begins and ends with a frame. -/
structure Window where
  first : Location
  more : List Location
deriving DecidableEq, Repr, Inhabited

namespace Window

/-- The frames of a window in order. -/
def frames (window : Window) : List Location := window.first :: window.more

/-- Where the window begins. -/
def pos (window : Window) : Nat := window.first.pos

/-- The place behind the window. -/
def endPos (window : Window) : Nat := (window.more.getLastD window.first).endPos

/-- Whether a window that begins at `pos` may go on to the end of a frame. -/
def admits (limit pos : Nat) (loc : Location) : Bool := loc.endPos - pos ≤ limit

/-- Groups frames into windows of at most `limit` bytes, or of one frame. -/
def group (limit : Nat) : List Location → List Window
  | [] => []
  | first :: rest =>
    ⟨first, rest.takeWhile (admits limit first.pos)⟩
      :: group limit (rest.dropWhile (admits limit first.pos))
termination_by locs => locs.length
decreasing_by
  have h := (List.dropWhile_suffix (l := rest) (admits limit first.pos)).length_le
  simp only [List.length_cons]
  omega

end Window

end CommitLog.Partition
