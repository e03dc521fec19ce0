import CommitLog.Reader
import CommitLog.Text.Utf8

/-!
# Reactions

A command that is applied to a state is accepted and produces events, or it is rejected with a
reason. The binary form is a tag byte, then a count and the events, or a length and the UTF-8 of
the reason:

```text
[0][4: count](event)*
[1][4: length][reason]
```

How one event is written and read is up to the caller. The byte codec puts each event behind its
length.
-/

namespace CommitLog

/-- What became of a command. -/
inductive Reaction (ε : Type) where
  /-- The command produced these events, in order. -/
  | accepted (events : List ε)
  /-- The command was refused. -/
  | rejected (reason : String)
deriving DecidableEq, Repr

namespace Reaction

variable {ε φ τ : Type}

/-- Whether the command was accepted. -/
def isAccepted : Reaction ε → Bool
  | accepted _ => true
  | rejected _ => false

/-- The events produced; a rejection has none. -/
def events : Reaction ε → List ε
  | accepted events => events
  | rejected _ => []

/-- Brings both cases to one type. -/
def fold (onAccepted : List ε → τ) (onRejected : String → τ) : Reaction ε → τ
  | accepted events => onAccepted events
  | rejected reason => onRejected reason

/-- Changes every event. -/
def map (f : ε → φ) : Reaction ε → Reaction φ
  | accepted events => accepted (events.map f)
  | rejected reason => rejected reason

/-- What a length stands in front of. -/
inductive Counted where
  | eventSequence
  | rejectionReason
  | event
deriving DecidableEq, Repr

/-- The name of what is counted. -/
def Counted.name : Counted → String
  | .eventSequence => "event sequence"
  | .rejectionReason => "rejection reason"
  | .event => "event"

/-- Why a reaction cannot be written or read. -/
inductive Error where
  /-- The first byte is no tag. -/
  | unknownTag (tag : UInt8)
  /-- The data ends before what is due. -/
  | truncated (needed remaining : Nat)
  /-- The reason is no UTF-8. -/
  | invalidReason
  /-- A length takes more than 32 bits. -/
  | tooLong (what : Counted) (length : Nat)
  /-- The codec of the events failed. -/
  | event (message : String)
deriving DecidableEq, Repr

/-- What is said about a failure. -/
def Error.message : Error → String
  | .unknownTag tag => "unknown reaction tag " ++ toString tag.toNat
  | .truncated needed remaining =>
    "reaction truncated: needed " ++ toString needed ++ " bytes, "
      ++ toString remaining ++ " remaining"
  | .invalidReason => "rejection reason is not valid UTF-8"
  | .tooLong what length =>
    what.name ++ " of length " ++ toString length ++ " does not fit a 32-bit length prefix"
  | .event text => "event codec failed: " ++ text

/-! ## Writing -/

/-- What a writer appended, up to the error that stopped it. -/
structure Written where
  bytes : Bytes
  error : Option Error := none
deriving DecidableEq, Repr

namespace Written

/-- One thing written after another; the second is not begun if the first failed. -/
def andThen (first second : Written) : Written :=
  match first.error with
  | some _ => first
  | none => ⟨first.bytes ++ second.bytes, second.error⟩

/-- A failure before anything was written. -/
def failed (error : Error) : Written := ⟨[], some error⟩

end Written

/-- The tag of an accepted command. -/
def acceptedTag : UInt8 := 0

/-- The tag of a rejected command. -/
def rejectedTag : UInt8 := 1

/-- Lengths that 32 bits cannot hold start here. -/
def lengthBound : Nat := UInt32.size

/-- Appends a tag and a length, if 32 bits hold the length. -/
def writeHead (tag : UInt8) (what : Counted) (length : Nat) : Written :=
  if length < lengthBound then ⟨tag :: Bytes.ofUInt32 (UInt32.ofNat length), none⟩
  else .failed (.tooLong what length)

/-- Appends events one after another, up to the first that fails. -/
def writeEvents (write : ε → Written) : List ε → Written
  | [] => ⟨[], none⟩
  | event :: later => (write event).andThen (writeEvents write later)

/-- Appends the binary form, each event by `write`. -/
def encode (write : ε → Written) : Reaction ε → Written
  | accepted events =>
    (writeHead acceptedTag .eventSequence events.length).andThen (writeEvents write events)
  | rejected reason =>
    let bytes := Text.Utf8.encode reason
    (writeHead rejectedTag .rejectionReason bytes.length).andThen ⟨bytes, none⟩

/-! ## Reading -/

/-- Reads a binary form, each event by `readEvent`. -/
def decode (readEvent : Reader Error ε) : Reader Error (Reaction ε) := do
  let tag ← Reader.uint8 (.truncated 1)
  if tag = acceptedTag then
    let count ← Reader.uint32 (.truncated 4)
    let events ← Reader.repeated readEvent count.toNat
    return accepted events
  else if tag = rejectedTag then
    let length ← Reader.uint32 (.truncated 4)
    let bytes ← Reader.take length.toNat (.truncated length.toNat)
    match Text.Utf8.decode? bytes with
    | some reason => return rejected reason
    | none => throw .invalidReason
  else
    throw (.unknownTag tag)

/-! ## Events of raw bytes -/

/-- Appends an event behind its length, if 32 bits hold the length. -/
def writeBytes (event : Bytes) : Written :=
  if event.length < lengthBound then
    ⟨Bytes.ofUInt32 (UInt32.ofNat event.length) ++ event, none⟩
  else .failed (.tooLong .event event.length)

/-- Reads an event behind its length. -/
def readBytes : Reader Error Bytes := do
  let length ← Reader.uint32 (.truncated 4)
  Reader.take length.toNat (.truncated length.toNat)

/-- The binary form of a reaction whose events are raw bytes. -/
def encodeBytes (reaction : Reaction Bytes) : Written := encode writeBytes reaction

/-- Reads a reaction whose events are raw bytes. -/
def decodeBytes : Reader Error (Reaction Bytes) := decode readBytes

end Reaction

end CommitLog
