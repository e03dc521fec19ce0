import CommitLog.Commit
import CommitLog.Partition
import CommitLog.Partition.Window

/-!
# Reading commits

A read begins at the start of a frame and goes through the file window by window. What it finds
is checked against the index: a frame that has changed its size is damage.
-/

namespace CommitLog.Partition

open CommitLog.Frame (Span)

/-- The frames to be read from an offset on. -/
def framesFrom (p : Partition) (offset count : Nat) : List Location :=
  (p.frames.filter fun loc => offset ≤ loc.start && loc.start < p.tailOffset).take count

/-- Whether a frame starts at an offset. -/
def hasFrameAt (p : Partition) (offset : Nat) : Bool :=
  p.frames.any fun loc => loc.start == offset

/-- The bytes of a frame inside the bytes of a window that begins at `pos`. -/
def slice? (data : Bytes) (pos : Nat) (loc : Location) : Option Bytes :=
  let rel := loc.pos - pos
  if rel + loc.length ≤ data.length then some ((data.drop rel).take loc.length) else none

/-- The commit of a frame, from the bytes of a window that begins at `pos`. -/
def readFrame (p : Partition) (maxField : Nat) (data : Bytes) (pos : Nat) (loc : Location) :
    Except LogError RawCommit :=
  let revision : Revision := ⟨p.number, UInt64.ofNat loc.start⟩
  let corrupt (damage : Damage) : Except LogError RawCommit :=
    .error (.corrupt p.path.display loc.pos damage)
  match slice? data pos loc with
  | none => corrupt .outsideWindow
  | some bytes =>
    match Frame.decode maxField bytes with
    | .error (.badDelimiter found) =>
      .error (.invalidPosition revision (.frame (.badDelimiter found)))
    | .error error => corrupt (.frame error)
    | .ok (frame, span) =>
      if span ≠ ⟨loc.length, loc.entries⟩ then
        corrupt (.spanDiffers span ⟨loc.length, loc.entries⟩)
      else
        .ok {
          id := frame.id
          timestamp := frame.timestamp
          key := frame.key
          entries := frame.entries
          actual := revision.advancedBy loc.entries
          expected := revision }

/-- The commits of a window. -/
def readWindow (p : Partition) (maxField : Nat) (data : Bytes) (window : Window) :
    Except LogError (List RawCommit) :=
  if data.length < window.endPos then
    .error (.corrupt p.path.display window.pos (.fileTooShort data.length window.endPos))
  else
    let stretch := (data.drop window.pos).take (window.endPos - window.pos)
    window.frames.mapM (p.readFrame maxField stretch window.pos)

/-- Reads up to `count` commits from a position on, which has to be the start of a frame or the
tail. -/
def read (p : Partition) (disk : Disk) (maxField maxWindow : Nat) (start : Revision)
    (count : Nat) : Except LogError (List RawCommit) :=
  let offset := start.offset.toNat
  if p.tailOffset < offset then .error (.invalidPosition start (.beyondTail p.tail.offset))
  else if offset = p.tailOffset ∨ count = 0 then .ok []
  else if !p.hasFrameAt offset then .error (.invalidPosition start .noBoundary)
  else
    match disk.read p.path with
    | .error failure => .error (.io failure p.path.display)
    | .ok data =>
      let windows := Window.group maxWindow (p.framesFrom offset count)
      (windows.mapM (p.readWindow maxField data)).map List.flatten

end CommitLog.Partition
