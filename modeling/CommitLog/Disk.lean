import CommitLog.Bytes
import CommitLog.Disk.Failure
import CommitLog.Path

/-!
# Disk

The files that logs are kept in, as a value. Directories have numbers and lead from names to other
directories, to files and to a device that is always full. The bytes of a file belong to the file
and not to its name: a handle that was opened keeps its file when the name is removed or given to
another file.

What is to go wrong with the next operations on open files is part of the disk: `faults` says, one
operation after another, which fails and how much of a write has landed by then. Nothing goes
wrong beyond the end of that list, except that a file has a largest size and the device no room.
-/

namespace CommitLog

namespace Disk

/-- What a name stands for. -/
inductive Entry where
  | directory (number : Nat)
  | file (number : Nat)
  /-- Reads as empty, and has no room for a single byte. -/
  | device
deriving DecidableEq, Repr, Inhabited

/-- A directory: the number of the one above it, and what is in it. -/
structure Directory where
  above : Nat
  entries : List (String × Entry) := []
deriving DecidableEq, Repr, Inhabited

/-- A file that is open for appending. -/
inductive Handle where
  | file (number : Nat)
  | device
deriving DecidableEq, Repr, Inhabited

/-- An operation on an open file that goes wrong. -/
structure Fault where
  failure : Failure
  /-- How many bytes of a write reach the file. -/
  landed : Nat := 0
deriving DecidableEq, Repr, Inhabited

/-- The number of the directory that all paths begin in. There is nothing above it. -/
def top : Nat := 0

end Disk

/-- All directories and the bytes of all files by their numbers, and what is to go wrong. -/
structure Disk where
  directories : Array Disk.Directory := #[{ above := Disk.top }]
  contents : Array (Array UInt8) := #[]
  faults : List (Option Disk.Fault) := []
deriving DecidableEq, Repr, Inhabited

namespace Disk

/-- No name is longer than this, in bytes. -/
def nameLimit : Nat := 255

/-- No path is longer than this, in bytes. -/
def pathLimit : Nat := 4095

/-- No file is longer than this. -/
def maxFileLength : Nat := 0x7FFFFFFFFFFFFFFF

/-! ## Names -/

/-- The directory of a number. -/
def directory (disk : Disk) (number : Nat) : Directory := disk.directories.getD number default

/-- What a name stands for in a directory. -/
def lookup (disk : Disk) (here : Nat) (name : String) : Except Failure Entry :=
  if nameLimit < name.utf8ByteSize then .error .nameTooLong
  else
    match (disk.directory here).entries.lookup name with
    | none => .error .notFound
    | some entry => .ok entry

/-- Where a segment of a path leads from a directory. -/
def step (disk : Disk) (here : Nat) (segment : String) : Except Failure Entry :=
  if Path.stays segment then .ok (.directory here)
  else if segment = Path.upward then .ok (.directory (disk.directory here).above)
  else disk.lookup here segment

/-- Follows segments from an entry on. -/
def follow (disk : Disk) : Entry → List String → Except Failure Entry
  | entry, [] => .ok entry
  | .directory here, segment :: rest =>
    match disk.step here segment with
    | .ok entry => follow disk entry rest
    | .error failure => .error failure
  | _, _ :: _ => .error .notDirectory

/-- Why a path is refused before it is followed. -/
def refusal? (path : Path) : Option Failure :=
  if path.hasZero then some .zeroInPath
  else if pathLimit < path.size then some .nameTooLong
  else none

/-- What a path leads to. -/
def resolve (disk : Disk) (path : Path) : Except Failure Entry :=
  match refusal? path with
  | some failure => .error failure
  | none => disk.follow (.directory top) path.segments

/-- Whether a path leads to a directory. -/
def isDirectory (disk : Disk) (path : Path) : Bool :=
  match disk.resolve path with
  | .ok (.directory _) => true
  | _ => false

/-- A name in a directory, whether it stands for something or not. -/
structure Place where
  directory : Nat
  name : String
deriving DecidableEq, Repr

/-- The place of the last segment of a path, none if that segment is no name. What is above it has
to be there. -/
def place (disk : Disk) (path : Path) : Except Failure (Option Place) :=
  match refusal? path, path.withoutSlashes.getLast? with
  | some failure, _ => .error failure
  | none, none => .ok none
  | none, some last =>
    match disk.follow (.directory top) path.withoutSlashes.dropLast with
    | .error failure => .error failure
    | .ok (.directory here) =>
      .ok (if Path.stays last || last == Path.upward then none else some ⟨here, last⟩)
    | .ok _ => .error .notDirectory

/-- Changes what is in a directory. -/
def modifyEntries (disk : Disk) (number : Nat)
    (change : List (String × Entry) → List (String × Entry)) : Disk :=
  { disk with
    directories := disk.directories.modify number fun directory =>
      { directory with entries := change directory.entries } }

/-- Takes what a name stands for away. -/
def unlink (disk : Disk) (place : Place) : Disk :=
  disk.modifyEntries place.directory fun entries =>
    entries.filter fun (name, _) => name != place.name

/-- Gives a name to an entry, whatever it stood for before. -/
def link (disk : Disk) (place : Place) (entry : Entry) : Disk :=
  (disk.unlink place).modifyEntries place.directory fun entries => (place.name, entry) :: entries

/-- Gives a name to a new directory. -/
def createDirectory (disk : Disk) (place : Place) : Disk :=
  { disk with directories := disk.directories.push { above := place.directory } }.link place
    (.directory disk.directories.size)

/-- Makes one directory in a directory that is there. -/
def makeDirectory (disk : Disk) (path : Path) : Except Failure Disk :=
  match disk.place path with
  | .error failure => .error failure
  | .ok none => .error .alreadyExists
  | .ok (some place) =>
    match disk.lookup place.directory place.name with
    | .ok _ => .error .alreadyExists
    | .error .notFound => .ok (disk.createDirectory place)
    | .error failure => .error failure

/-- Makes one directory; one that is there already will do. -/
def ensureDirectory (disk : Disk) (path : Path) : Except Failure Unit × Disk :=
  match disk.makeDirectory path with
  | .ok made => (.ok (), made)
  | .error failure => (if disk.isDirectory path then .ok () else .error failure, disk)

/-- Makes a directory and all that are missing above it. When one above it is missing, that is made
first, and stays if the rest fails. -/
def makeDirectories (disk : Disk) (path : Path) : Except Failure Unit × Disk :=
  match disk.ensureDirectory path with
  | (.error .notFound, disk) =>
    match _h : path.parent? with
    | none => (.error .notFound, disk)
    | some above =>
      match makeDirectories disk above with
      | (.ok (), disk) => disk.ensureDirectory path
      | (.error failure, disk) => (.error failure, disk)
  | result => result
termination_by path.segments.length
decreasing_by exact Path.length_segments_of_parent? _h

/-- The names of the directories in a directory, in order. -/
def directoriesIn (disk : Disk) (path : Path) : Except Failure (List String) :=
  match disk.resolve path with
  | .error failure => .error failure
  | .ok (.directory number) =>
    let names := (disk.directory number).entries.map Prod.fst
    .ok ((names.filter fun name => disk.isDirectory (path.child name)).mergeSort
      fun a b => decide (a ≤ b))
  | .ok _ => .error .notDirectory

/-! ## Contents -/

/-- How many bytes a file has. -/
def length (disk : Disk) (number : Nat) : Nat := (disk.contents.getD number #[]).size

/-- The bytes of a file. -/
def content (disk : Disk) (number : Nat) : Bytes := (disk.contents.getD number #[]).toList

/-- Changes the bytes of a file. -/
def modifyContent (disk : Disk) (number : Nat) (change : Array UInt8 → Array UInt8) : Disk :=
  { disk with contents := disk.contents.modify number change }

/-- Gives a file other bytes. -/
def setContent (disk : Disk) (number : Nat) (bytes : Bytes) : Disk :=
  disk.modifyContent number fun _ => bytes.toArray

/-- Puts bytes at the end of a file. -/
def appendContent (disk : Disk) (number : Nat) (bytes : Bytes) : Disk :=
  disk.modifyContent number fun old => old ++ bytes

/-- Gives a name to a new file without a byte. -/
def createFile (disk : Disk) (place : Place) : Disk :=
  { disk with contents := disk.contents.push #[] }.link place (.file disk.contents.size)

/-- All bytes of the file that a path leads to. A directory cannot be looked into. -/
def read (disk : Disk) (path : Path) : Except Failure Bytes :=
  match disk.resolve path with
  | .error failure => .error failure
  | .ok (.directory _) => .error .noSuchDevice
  | .ok (.file number) => .ok (disk.content number)
  | .ok .device => .ok []

/-! ## Open files -/

/-- Makes a file for a path that leads nowhere. -/
def openNew (disk : Disk) (path : Path) : Except Failure (Handle × Disk) :=
  match disk.place path with
  | .error failure => .error failure
  | .ok none => .error .isDirectory
  | .ok (some place) => .ok (.file disk.contents.size, disk.createFile place)

/-- Opens a file for appending, and makes it if it is missing and is to be made. A path that ends as
only that of a directory does cannot be the path of a file to be made. -/
def openAppend (disk : Disk) (path : Path) (create : Bool) : Except Failure (Handle × Disk) :=
  if create && path.endsInDirectory then (disk.place path).bind fun _ => .error .isDirectory
  else
    match disk.resolve path with
    | .ok (.directory _) => .error .isDirectory
    | .ok (.file number) => .ok (.file number, disk)
    | .ok .device => .ok (.device, disk)
    | .error .notFound => if create then disk.openNew path else .error .notFound
    | .error failure => .error failure

/-- What goes wrong with the next operation on an open file. -/
def nextFault (disk : Disk) : Option Fault × Disk :=
  match disk.faults with
  | [] => (none, disk)
  | fault :: later => (fault, { disk with faults := later })

/-- Writes at the end of an open file. -/
def append (disk : Disk) (handle : Handle) (bytes : Bytes) : Except Failure Unit × Disk :=
  match handle with
  | .device => (.error .noSpace, disk)
  | .file number =>
    match disk.nextFault with
    | (some fault, disk) =>
      (.error fault.failure, disk.appendContent number (bytes.take fault.landed))
    | (none, disk) =>
      if maxFileLength < disk.length number + bytes.length then (.error .fileTooLarge, disk)
      else (.ok (), disk.appendContent number bytes)

/-- Forces what was written to an open file to stable storage. -/
def sync (disk : Disk) (handle : Handle) : Except Failure Unit × Disk :=
  match handle with
  | .device => (.error .invalidArgument, disk)
  | .file _ =>
    match disk.nextFault with
    | (some fault, disk) => (.error fault.failure, disk)
    | (none, disk) => (.ok (), disk)

/-- Bytes cut or filled up with zeros to a length. -/
def resized (bytes : Bytes) (length : Nat) : Bytes :=
  bytes.take length ++ List.replicate (length - bytes.length) 0

/-- Gives an open file a length. -/
def setLength (disk : Disk) (handle : Handle) (length : Nat) : Except Failure Unit × Disk :=
  match handle with
  | .device => (.error .invalidArgument, disk)
  | .file number =>
    match disk.nextFault with
    | (some fault, disk) => (.error fault.failure, disk)
    | (none, disk) => (.ok (), disk.setContent number (resized (disk.content number) length))

end Disk

end CommitLog
