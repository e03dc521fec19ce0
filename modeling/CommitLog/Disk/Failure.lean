/-!
# Failures of a disk

Why an operation on files fails, with the texts and numbers of the operating system.
-/

namespace CommitLog.Disk

/-- Why an operation on files fails. -/
inductive Failure where
  | notFound
  | alreadyExists
  | noSuchDevice
  | notDirectory
  | isDirectory
  | invalidArgument
  | fileTooLarge
  | noSpace
  | nameTooLong
  /-- The operating system takes no path with the character of number zero in it. -/
  | zeroInPath
  /-- There is no log where one was to be opened. -/
  | noRoot
  /-- A failure that someone else put into words. -/
  | described (text : String)
deriving DecidableEq, Repr, Inhabited

namespace Failure

/-- The number and the text of the operating system, for the failures that it reports. -/
def systemError? : Failure → Option (Nat × String)
  | notFound => some (2, "No such file or directory")
  | alreadyExists => some (17, "File exists")
  | noSuchDevice => some (19, "No such device")
  | notDirectory => some (20, "Not a directory")
  | isDirectory => some (21, "Is a directory")
  | invalidArgument => some (22, "Invalid argument")
  | fileTooLarge => some (27, "File too large")
  | noSpace => some (28, "No space left on device")
  | nameTooLong => some (36, "File name too long")
  | zeroInPath => none
  | noRoot => none
  | described _ => none

/-- What is said about a failure. -/
def message (failure : Failure) : String :=
  match failure.systemError? with
  | some (number, text) => text ++ " (os error " ++ toString number ++ ")"
  | none =>
    match failure with
    | described text => text
    | zeroInPath => "file name contained an unexpected NUL byte"
    | _ => "log root does not exist"

end Failure

end CommitLog.Disk
