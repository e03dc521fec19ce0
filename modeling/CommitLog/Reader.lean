import CommitLog.Bytes

/-!
# Readers

A reader takes a value from the front of its data or says why it cannot, and leaves the rest. A
reader that fails part of the way has used up what it took before: only the step that fails takes
nothing.
-/

namespace CommitLog

/-- Takes a value of type `α` from the front of the data, or fails with an `ε`. -/
abbrev Reader (ε α : Type) := ExceptT ε (StateM Bytes) α

namespace Reader

variable {ε α : Type}

/-- Runs a reader: what was read or why not, and what is left of the data. -/
def read (reader : Reader ε α) (data : Bytes) : Except ε α × Bytes :=
  StateT.run (m := Id) (ExceptT.run reader) data

/-- Takes `n` bytes. With fewer left, fails with what `short` says of their count. -/
def take (n : Nat) (short : Nat → ε) : Reader ε Bytes :=
  ExceptT.mk fun data =>
    match Bytes.split? n data with
    | some (front, rest) => (.ok front, rest)
    | none => (.error (short data.length), data)

/-- Takes one byte. -/
def uint8 (short : Nat → ε) : Reader ε UInt8 := do
  let word ← take 1 short
  return UInt8.ofNat (Bytes.toNat word)

/-- Takes a 32-bit word. -/
def uint32 (short : Nat → ε) : Reader ε UInt32 := do
  let word ← take 4 short
  return UInt32.ofNat (Bytes.toNat word)

/-- Takes a 64-bit word. -/
def uint64 (short : Nat → ε) : Reader ε UInt64 := do
  let word ← take 8 short
  return UInt64.ofNat (Bytes.toNat word)

/-- Reads `n` values one after another. -/
def repeated (reader : Reader ε α) : Nat → Reader ε (List α)
  | 0 => return []
  | n + 1 => do
    let value ← reader
    let later ← repeated reader n
    return value :: later

end Reader

end CommitLog
