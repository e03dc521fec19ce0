import CommitLog.Disk

/-!
# Changes from outside

What others than the log do to files: write them anew, append to them, patch them, cut them,
remove them, and put the full device in their place.
-/

namespace CommitLog.Disk

/-- Makes the directories above a path. -/
def makeAbove (disk : Disk) (path : Path) : Except Failure Unit × Disk :=
  match path.parent? with
  | some above => disk.makeDirectories above
  | none => (.ok (), disk)

/-- Changes the bytes of the file that a path leads to; a missing file and the directories above it
are made. -/
def edit (disk : Disk) (path : Path) (change : Bytes → Bytes) : Except Failure Unit × Disk :=
  match disk.makeAbove path with
  | (.error failure, disk) => (.error failure, disk)
  | (.ok (), disk) =>
    match disk.openAppend path true with
    | .error failure => (.error failure, disk)
    | .ok (.device, disk) => (.error .noSpace, disk)
    | .ok (.file number, disk) => (.ok (), disk.setContent number (change (disk.content number)))

/-- Writes a whole file. -/
def writeFile (disk : Disk) (path : Path) (bytes : Bytes) : Except Failure Unit × Disk :=
  disk.edit path fun _ => bytes

/-- Writes at the end of a file. -/
def appendFile (disk : Disk) (path : Path) (bytes : Bytes) : Except Failure Unit × Disk :=
  disk.edit path fun old => old ++ bytes

/-- The bytes with others written over them from a place on. -/
def overwritten (old : Bytes) (pos : Nat) (bytes : Bytes) : Bytes :=
  resized old pos ++ bytes ++ old.drop (pos + bytes.length)

/-- Writes over a file from a place on. -/
def patchFile (disk : Disk) (path : Path) (pos : Nat) (bytes : Bytes) :
    Except Failure Unit × Disk :=
  disk.edit path fun old => overwritten old pos bytes

/-- The length of the file that a path leads to. -/
def fileLength (disk : Disk) (path : Path) : Except Failure Nat := List.length <$> disk.read path

/-- Gives a file that is there a length. -/
def cutFile (disk : Disk) (path : Path) (length : Nat) : Except Failure Unit × Disk :=
  match disk.openAppend path false with
  | .error failure => (.error failure, disk)
  | .ok (handle, disk) => disk.setLength handle length

/-- Takes the name of a file away. -/
def remove (disk : Disk) (path : Path) : Except Failure Unit × Disk :=
  match disk.resolve path, disk.place path with
  | .error failure, _ => (.error failure, disk)
  | .ok (.directory _), _ => (.error .isDirectory, disk)
  | .ok _, .ok (some place) => (.ok (), disk.unlink place)
  | .ok _, .ok none => (.error .isDirectory, disk)
  | .ok _, .error failure => (.error failure, disk)

/-- Puts the full device in the place of a file. -/
def linkDevice (disk : Disk) (path : Path) : Except Failure Unit × Disk :=
  match disk.makeAbove path with
  | (.error failure, disk) => (.error failure, disk)
  | (.ok (), disk) =>
    match disk.place path with
    | .error failure => (.error failure, disk)
    | .ok none => (.error .alreadyExists, disk)
    | .ok (some place) =>
      if disk.isDirectory path then (.error .alreadyExists, disk)
      else (.ok (), disk.link place .device)

end CommitLog.Disk
