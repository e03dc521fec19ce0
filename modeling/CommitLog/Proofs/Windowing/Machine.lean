import CommitLog.Proofs.Partition.Windows
import Mathlib.Data.List.Forall2
import Mathlib.Logic.Function.Iterate

/-!
# Reading by index

`Partition.read` groups the frames first and reads the windows then. Here both are done frame by
frame, as a program does it that keeps nothing but two indices and two places of the file: the window
in hand takes one more frame as long as it fits, is read as soon as one does not, and the next window
begins with that frame. Places are counted from the front of the window, and frames are asked for by
index. A step that would have to count backwards, or to ask for a frame that is not there, breaks off
instead of going on with a number that is none (`Stage.broken`).

Every step brings the walk nearer to its end (`left_step_le`), so a walk ends after two steps for each
frame and one more (`left_after_all`).
-/

namespace CommitLog.Windowing

open CommitLog.Partition (Location Window)

/-! ## Windows by index -/

/-- A window by the indices of its frames, from the first up to one behind the last, and by the
places where it begins and ends. -/
structure Stretch where
  first : Nat
  stop : Nat
  pos : Nat
  endPos : Nat
deriving DecidableEq, Repr

namespace Stretch

/-- The frames of a window by index. -/
def frames (stretch : Stretch) (locs : List Location) : List Location :=
  locs.extract stretch.first stretch.stop

/-- The bytes of a window by index. -/
def bytes (stretch : Stretch) (data : Bytes) : Bytes :=
  (data.drop stretch.pos).take (stretch.endPos - stretch.pos)

/-- The window with one more frame. -/
def grow (stretch : Stretch) (loc : Location) : Stretch :=
  { stretch with stop := stretch.stop + 1, endPos := loc.endPos }

/-- A window by index and a window that show the same frames and the same bytes. -/
structure Shows (locs : List Location) (stretch : Stretch) (window : Window) : Prop where
  frames : stretch.frames locs = window.frames
  pos : stretch.pos = window.pos
  endPos : stretch.endPos = window.endPos

end Stretch

/-! ## The walk -/

/-- Why a walk breaks off. -/
inductive Fault where
  /-- A place is to be counted from one behind it. -/
  | underflow
  /-- There is no frame at an index. -/
  | outOfRange
deriving DecidableEq, Repr

/-- What a walk does next. -/
inductive Stage where
  /-- Begins a window with the frame at an index, if there is one. -/
  | between (i : Nat)
  /-- Looks at the frame behind the window in hand. -/
  | growing (window : Stretch)
  | ended (answer : Except LogError (List RawCommit))
  | broken (fault : Fault)
deriving DecidableEq, Repr

/-- A read on its way through the frames. -/
structure Walk where
  /-- The windows that are complete. -/
  windows : List Stretch := []
  /-- The commits that were read from them. -/
  commits : List RawCommit := []
  stage : Stage := .between 0
deriving DecidableEq, Repr

namespace Walk

variable (p : Partition) (maxField limit : Nat) (data : Bytes) (locs : List Location) (walk : Walk)

/-- The walk when it has come to another stage. -/
def reach (stage : Stage) : Walk := { walk with stage }

/-- The walk when a window is complete and has been read. -/
def finish (window : Stretch) : Walk :=
  let complete : Walk := { walk with windows := walk.windows ++ [window] }
  if data.length < window.endPos then
    complete.reach (.ended (.error
      (.corrupt p.path.display window.pos (.fileTooShort data.length window.endPos))))
  else if window.endPos < window.pos then complete.reach (.broken .underflow)
  else if window.stop < window.first ∨ locs.length < window.stop then
    complete.reach (.broken .outOfRange)
  else if (window.frames locs).any fun loc => loc.pos < window.pos then
    complete.reach (.broken .underflow)
  else
    match (window.frames locs).mapM (p.readFrame maxField (window.bytes data) window.pos) with
    | .error failure => complete.reach (.ended (.error failure))
    | .ok commits =>
      { complete with commits := walk.commits ++ commits, stage := .between window.stop }

/-- The walk when a window begins with the frame at an index. -/
def start (i : Nat) : Walk :=
  match locs[i]? with
  | none => walk.reach (.ended (.ok walk.commits))
  | some loc => walk.reach (.growing ⟨i, i + 1, loc.pos, loc.endPos⟩)

/-- The walk when it has looked at the frame behind a window. -/
def look (window : Stretch) : Walk :=
  match locs[window.stop]? with
  | none => walk.finish p maxField data locs window
  | some loc =>
    if loc.endPos < window.pos then walk.reach (.broken .underflow)
    else if limit < loc.endPos - window.pos then walk.finish p maxField data locs window
    else walk.reach (.growing (window.grow loc))

/-- The next step of a walk. -/
def step : Walk :=
  match walk.stage with
  | .between i => walk.start locs i
  | .growing window => walk.look p maxField limit data locs window
  | .ended _ => walk
  | .broken _ => walk

/-- The walk after so many steps from the first frame on. -/
def after (n : Nat) : Walk := (step p maxField limit data locs)^[n] {}

end Walk

/-! ## Every walk ends -/

variable (p : Partition) (maxField limit : Nat) (data : Bytes) (locs : List Location)

/-- How many steps a walk through so many frames has left at most. -/
def Stage.left (count : Nat) : Stage → Nat
  | between i => 2 * (count - i) + 1
  | growing window => 2 * (count - window.stop) + 2
  | ended _ => 0
  | broken _ => 0

theorem left_start_le (walk : Walk) (i : Nat) :
    (walk.start locs i).stage.left locs.length ≤ 2 * (locs.length - i) := by
  unfold Walk.start
  split
  next => exact Nat.zero_le _
  next loc hloc =>
    obtain ⟨hlt, -⟩ := List.getElem?_eq_some_iff.1 hloc
    simp only [Walk.reach, Stage.left]
    omega

theorem left_finish_le (walk : Walk) (window : Stretch) :
    (walk.finish p maxField data locs window).stage.left locs.length
      ≤ 2 * (locs.length - window.stop) + 1 := by
  unfold Walk.finish
  simp only
  split
  · exact Nat.zero_le _
  split
  · exact Nat.zero_le _
  split
  · exact Nat.zero_le _
  split
  · exact Nat.zero_le _
  split
  · exact Nat.zero_le _
  · exact Nat.le_refl _

theorem left_look_le (walk : Walk) (window : Stretch) :
    (walk.look p maxField limit data locs window).stage.left locs.length
      ≤ 2 * (locs.length - window.stop) + 1 := by
  unfold Walk.look
  split
  next => exact left_finish_le p maxField data locs walk window
  next loc hloc =>
    obtain ⟨hlt, -⟩ := List.getElem?_eq_some_iff.1 hloc
    split
    · exact Nat.zero_le _
    split
    · exact left_finish_le p maxField data locs walk window
    · simp only [Walk.reach, Stretch.grow, Stage.left]
      omega

/-- **Every step brings a walk nearer to its end.** -/
theorem left_step_le (walk : Walk) :
    (walk.step p maxField limit data locs).stage.left locs.length
      ≤ walk.stage.left locs.length - 1 := by
  unfold Walk.step
  split
  next i hstage =>
    rw [hstage]
    exact left_start_le locs walk i
  next window hstage =>
    rw [hstage]
    exact left_look_le p maxField limit data locs walk window
  next hstage =>
    rw [hstage]
    exact Nat.le_refl _
  next hstage =>
    rw [hstage]
    exact Nat.le_refl _

theorem left_after_le (n : Nat) :
    (Walk.after p maxField limit data locs n).stage.left locs.length
      ≤ 2 * locs.length + 1 - n := by
  induction n with
  | zero => exact Nat.le_refl _
  | succ n ih =>
    have hstep := left_step_le p maxField limit data locs
      (Walk.after p maxField limit data locs n)
    rw [Walk.after, Function.iterate_succ_apply']
    exact Nat.le_trans hstep (by omega)

/-- **A walk has come to its end after two steps for each frame and one more.** -/
theorem left_after_all :
    (Walk.after p maxField limit data locs (2 * locs.length + 1)).stage.left locs.length = 0 := by
  have hle := left_after_le p maxField limit data locs (2 * locs.length + 1)
  omega

end CommitLog.Windowing
