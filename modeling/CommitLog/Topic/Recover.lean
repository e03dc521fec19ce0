import CommitLog.Config
import CommitLog.Topic

/-!
# Recovering a topic

Opening a topic scans the file of every partition, and the index is made of the frames that the
scan has found. A torn last write is cut off if the settings say so and files may be changed;
where they may only be read, it is passed over.
-/

namespace CommitLog.Topic

/-- Whether a directory below the root can have a name. -/
def isValidName (name : String) : Bool :=
  !(name.isEmpty || name == "." || name == ".."
    || name.toList.any fun c => c == '/' || c == '\\' || c == Char.ofNat 0)

/-- The name of the file of a partition. -/
def fileName (number : UInt32) : String :=
  let digits := toString number.toNat
  "partition-" ++ String.ofList (List.replicate (5 - digits.length) '0') ++ digits ++ ".log"

/-- Cuts a file to a length, and forces that to stable storage. -/
def cut (disk : Disk) (path : Path) (length : Nat) : Except Disk.Failure Unit × Disk :=
  match disk.openAppend path false with
  | .error failure => (.error failure, disk)
  | .ok (handle, disk) =>
    match disk.setLength handle length with
    | (.ok (), disk) => disk.sync handle
    | (.error failure, disk) => (.error failure, disk)

/-- Deals with what a crash has left behind the whole frames of a file. -/
def repair (config : Config) (disk : Disk) (path : Path) (found : Partition.Scan) :
    Except LogError Unit × Disk :=
  match found.torn with
  | none => (.ok (), disk)
  | some torn =>
    if !config.repairTornTail then
      (.error (.corrupt path.display found.validBytes (.torn torn)), disk)
    else if config.openFlags.contains .append then
      let (result, disk) := cut disk path found.validBytes
      (result.mapError fun failure => .io failure (some path.display), disk)
    else (.ok (), disk)

/-- Opens the file of a partition for appending, if the settings allow it. -/
def openFile (config : Config) (disk : Disk) (path : Path) :
    Except LogError (Option Disk.Handle) × Disk :=
  if config.openFlags.contains .append then
    match disk.openAppend path (config.openFlags.contains .create) with
    | .ok (handle, disk) => (.ok (some handle), disk)
    | .error failure => (.error (.io failure (some path.display)), disk)
  else (.ok none, disk)

/-- Recovers one partition. -/
def recoverPartition (config : Config) (directory : Path) (number : UInt32) (disk : Disk) :
    Except LogError Partition × Disk :=
  let path := directory.child (fileName number)
  match Partition.scanFile disk path config.maxEntryBytes config.effectiveMaxMapBytes with
  | .error e => (.error e, disk)
  | .ok found =>
    match repair config disk path found with
    | (.error e, disk) => (.error e, disk)
    | (.ok (), disk) =>
      match openFile config disk path with
      | (.error e, disk) => (.error e, disk)
      | (.ok handle, disk) =>
        (.ok { Partition.recordAll { number, path } found.frames with handle }, disk)

/-- Recovers partitions one after another, up to the first that fails. -/
def recoverPartitions (config : Config) (directory : Path) : List UInt32 → Disk →
    Except LogError (List Partition) × Disk
  | [], disk => (.ok [], disk)
  | number :: later, disk =>
    match recoverPartition config directory number disk with
    | (.error e, disk) => (.error e, disk)
    | (.ok p, disk) =>
      let (rest, disk) := recoverPartitions config directory later disk
      ((p :: ·) <$> rest, disk)

/-- Makes sure that the directory of a topic is there. -/
def ensureDirectory (config : Config) (directory : Path) (name : String) (disk : Disk) :
    Except LogError Unit × Disk :=
  if disk.isDirectory directory then (.ok (), disk)
  else if !config.openFlags.contains .create then (.error (.unknownTopic name), disk)
  else
    let (result, disk) := disk.makeDirectories directory
    (result.mapError fun failure => .io failure (some directory.display), disk)

/-- The numbers of the partitions of each topic. -/
def partitionNumbers (config : Config) : List UInt32 :=
  (List.range config.partitions.toNat).map UInt32.ofNat

/-- Recovers a topic below the root of a log. -/
def recover (config : Config) (root : Path) (name : String) (disk : Disk) :
    Except LogError Topic × Disk :=
  if !isValidName name then (.error (.invalidOperation (.topicName name)), disk)
  else
    let directory := root.child name
    match ensureDirectory config directory name disk with
    | (.error e, disk) => (.error e, disk)
    | (.ok (), disk) =>
      let (found, disk) := recoverPartitions config directory (partitionNumbers config) disk
      (found.map fun partitions => {
        name, partitions
        queue := .ofFanout config.fanout
        durable := config.openFlags.contains .durable
        maxEntryBytes := config.maxEntryBytes
        maxMapBytes := config.effectiveMaxMapBytes }, disk)

end CommitLog.Topic
