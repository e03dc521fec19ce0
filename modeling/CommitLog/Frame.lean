import CommitLog.Identifier
import CommitLog.Total

/-!
# Frames

A frame is the stored form of one commit: a delimiter, the identifier, the time, then the key and
the entries, each behind its length, then the delimiter again in the place of a length.

```text
[4: delimiter][8: id, high half][8: id, low half][8: time]
[4: length][key]
([4: length][entry])*
[4: delimiter]
```

No field is as long as the delimiter says, so the delimiter where a length is due can only end the
frame. `measure` walks a frame without copying it; `decode` takes its contents out as well.
-/

namespace CommitLog

/-- The contents of one stored commit. -/
structure Frame where
  id : Identifier
  timestamp : UInt64
  key : Bytes
  entries : List Bytes
deriving DecidableEq, Repr, Inhabited

namespace Frame

/-! ## Layout -/

/-- Opens every frame, and closes it where a length is due. -/
def delimiter : UInt32 := 0xFEEDC0DE

/-- Delimiter, identifier and time. -/
def headerSize : Nat := 28

/-- The length in front of a field, and the closing delimiter. -/
def wordSize : Nat := 4

/-- No field is longer than this, whatever limit a log sets. -/
def maxFieldLength : Nat := 1024 * 1024 * 1024

/-- The room that a frame takes, and how many entries it holds. -/
structure Span where
  length : Nat
  entries : Nat
deriving DecidableEq, Repr, Inhabited

/-- Why data does not begin with a frame. -/
inductive Error where
  /-- The first word is something else than the delimiter. -/
  | badDelimiter (found : UInt32)
  /-- The data ends inside the frame. -/
  | incomplete (available : Nat)
  /-- The closing delimiter stands where the key is due. -/
  | missingKey
  /-- A field is announced that is longer than the limit. -/
  | fieldTooLarge (length limit : Nat)
deriving DecidableEq, Repr, Inhabited

/-- What is said about data that does not begin with a frame. -/
def Error.message : Error → String
  | .badDelimiter found =>
    "frame does not begin with the commit delimiter (found 0x"
      ++ Text.Hex.padded 8 found.toNat ++ ")"
  | .incomplete available =>
    "frame is incomplete: data ends after " ++ toString available ++ " bytes"
  | .missingKey => "frame has no key field"
  | .fieldTooLarge length limit =>
    "field of " ++ toString length ++ " bytes exceeds limit of " ++ toString limit ++ " bytes"

/-! ## Writing -/

/-- A field behind its length. -/
def encodeField (field : Bytes) : Bytes :=
  Bytes.ofUInt32 (UInt32.ofNat field.length) ++ field

/-- Delimiter, identifier and time. -/
def encodeHeader (id : Identifier) (timestamp : UInt64) : Bytes :=
  Bytes.ofUInt32 delimiter ++ Bytes.ofUInt64 id.hi ++ Bytes.ofUInt64 id.lo
    ++ Bytes.ofUInt64 timestamp

/-- The stored form of a frame. -/
def encode (frame : Frame) : Bytes :=
  encodeHeader frame.id frame.timestamp
    ++ (frame.key :: frame.entries).flatMap encodeField
    ++ Bytes.ofUInt32 delimiter

/-- The length of the stored form of a key and entries. -/
def encodedLength (key : Bytes) (entries : List Bytes) : Nat :=
  headerSize + (wordSize + key.length)
    + total (entries.map fun entry => wordSize + entry.length) + wordSize

theorem length_encodeField (field : Bytes) :
    (encodeField field).length = wordSize + field.length := by
  simp [encodeField, wordSize]

theorem length_encodeHeader (id : Identifier) (timestamp : UInt64) :
    (encodeHeader id timestamp).length = headerSize := by
  simp [encodeHeader, headerSize]

theorem length_encode (frame : Frame) :
    frame.encode.length = encodedLength frame.key frame.entries := by
  have hfields (fields : List Bytes) : (fields.flatMap encodeField).length
      = total (fields.map fun field => wordSize + field.length) := by
    induction fields with
    | nil => rfl
    | cons field later ih => simp [length_encodeField, ih]
  simp only [encode, List.length_append, length_encodeHeader, hfields, List.map_cons,
    total_cons, Bytes.length_ofUInt32, encodedLength]
  simp only [wordSize]
  omega

/-! ## Measuring -/

/-- Walks the fields at the front of `rest`, after `pos` bytes and `fields` fields of `whole`, to
the closing delimiter. -/
def measureFields (limit : Nat) (whole rest : Bytes) (pos fields : Nat) :
    Except Error (Nat × Nat) :=
  match _hword : Bytes.readUInt32? rest with
  | none => .error (.incomplete whole.length)
  | some (length, body) =>
    if length = delimiter then .ok (pos + wordSize, fields)
    else if limit < length.toNat then .error (.fieldTooLarge length.toNat limit)
    else
      match _hbody : Bytes.split? length.toNat body with
      | none => .error (.incomplete whole.length)
      | some (_, next) =>
        measureFields limit whole next (pos + wordSize + length.toNat) (fields + 1)
termination_by rest.length
decreasing_by
  rw [Bytes.readUInt32?_eq_some_iff.1 _hword, (Bytes.split?_eq_some_iff.1 _hbody).1]
  simp only [List.length_append, Bytes.length_ofUInt32]
  omega

/-- The room of the frame at the front of the data. A wrong first word is found before a header
that is cut short. -/
def measure (maxField : Nat) (data : Bytes) : Except Error Span :=
  match Bytes.readUInt32? data with
  | none => .error (.incomplete data.length)
  | some (found, _) =>
    if found ≠ delimiter then .error (.badDelimiter found)
    else
      match Bytes.split? headerSize data with
      | none => .error (.incomplete data.length)
      | some (_, rest) =>
        match measureFields (min maxField maxFieldLength) data rest headerSize 0 with
        | .error e => .error e
        | .ok (_, 0) => .error .missingKey
        | .ok (length, entries + 1) => .ok ⟨length, entries⟩

theorem le_measureFields {limit : Nat} {whole rest : Bytes} {pos fields length count : Nat}
    (h : measureFields limit whole rest pos fields = .ok (length, count)) : pos ≤ length := by
  fun_induction measureFields limit whole rest pos fields with
  | case1 => simp at h
  | case2 =>
    simp only [Except.ok.injEq, Prod.mk.injEq] at h
    omega
  | case3 => simp at h
  | case4 => simp at h
  | case5 _ _ _ _ _ _ _ _ _ _ _ ih =>
    have := ih h
    omega

/-- Every frame takes some room. -/
theorem length_pos_of_measure {maxField : Nat} {data : Bytes} {span : Span}
    (h : measure maxField data = .ok span) : 0 < span.length := by
  unfold measure at h
  split at h
  next => simp at h
  next =>
    split at h
    next => simp at h
    next =>
      split at h
      next => simp at h
      next =>
        split at h
        next => simp at h
        next => simp at h
        next hfields =>
          have hle := le_measureFields hfields
          obtain rfl := Except.ok.inj h
          exact Nat.lt_of_lt_of_le (by decide) hle

/-! ## Decoding -/

/-- The identifier and the time behind the delimiter. -/
def readHeader? (data : Bytes) : Option (Identifier × UInt64 × Bytes) := do
  let (_, rest) ← Bytes.readUInt32? data
  let (hi, rest) ← Bytes.readUInt64? rest
  let (lo, rest) ← Bytes.readUInt64? rest
  let (timestamp, rest) ← Bytes.readUInt64? rest
  return (⟨hi, lo⟩, timestamp, rest)

/-- The fields at the front of the data, up to the closing delimiter or the last word. Nothing is
checked here but that the bytes of a field are there. -/
def readFields? (data : Bytes) : Option (List Bytes) :=
  match _hword : Bytes.readUInt32? data with
  | none => some []
  | some (length, body) =>
    if length = delimiter then some []
    else
      match _hbody : Bytes.split? length.toNat body with
      | none => none
      | some (field, next) => (readFields? next).map (field :: ·)
termination_by data.length
decreasing_by
  rw [Bytes.readUInt32?_eq_some_iff.1 _hword, (Bytes.split?_eq_some_iff.1 _hbody).1]
  simp only [List.length_append, Bytes.length_ofUInt32]
  omega

/-- The frame at the front of the data, and its room. -/
def decode (maxField : Nat) (data : Bytes) : Except Error (Frame × Span) := do
  let span ← measure maxField data
  let some (id, timestamp, rest) := readHeader? data
    | throw (.incomplete data.length)
  let some fields := readFields? rest
    | throw (.incomplete data.length)
  match fields with
  | [] => throw .missingKey
  | key :: entries => return (⟨id, timestamp, key, entries⟩, span)

/-- A frame met on a walk: where it starts, its room and its contents. -/
structure Found where
  pos : Nat
  span : Span
  frame : Frame
deriving DecidableEq, Repr, Inhabited

/-- A walk over data from frame to frame: what was met, where it ended, and what stopped it before
the end of the data. -/
structure Walk where
  frames : List Found
  stop : Nat
  error : Option Error
deriving DecidableEq, Repr, Inhabited

/-- Walks frame after frame from `pos` on. Every frame takes some room, so the count of bytes left
bounds the walk. -/
def walkFrom (maxField : Nat) : Nat → Bytes → Nat → Walk
  | 0, _, pos => ⟨[], pos, none⟩
  | fuel + 1, data, pos =>
    if data.isEmpty then ⟨[], pos, none⟩
    else
      match decode maxField data with
      | .error e => ⟨[], pos, some e⟩
      | .ok (frame, span) =>
        let later := walkFrom maxField fuel (data.drop span.length) (pos + span.length)
        { later with frames := ⟨pos, span, frame⟩ :: later.frames }

/-- Walks frame after frame from the front of the data. -/
def walk (maxField : Nat) (data : Bytes) : Walk := walkFrom maxField data.length data 0

end Frame

end CommitLog
