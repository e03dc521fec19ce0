import CommitLog.Bytes

/-!
# Revisions

A revision is a position in one partition of a log. Its offset counts entries, not bytes: a
commit of `n` entries that starts at offset `o` moves the tail of its partition to `o + n`.

The binary form is the partition in four bytes and the offset in eight. A revision reads back as
it was written, whatever follows it, and nothing shorter reads at all.
-/

namespace CommitLog

/-- A position within one partition. -/
structure Revision where
  partition : UInt32
  offset : UInt64
deriving DecidableEq, Repr, Inhabited

namespace Revision

/-- The start of a partition. -/
def origin (partition : UInt32) : Revision := ⟨partition, 0⟩

/-- The largest offset a revision can hold. -/
def maxOffset : Nat := UInt64.size - 1

/-- Forward by a count of entries, stopping at the largest offset. -/
def advancedBy (r : Revision) (entries : Nat) : Revision :=
  ⟨r.partition, UInt64.ofNat (min (r.offset.toNat + entries) maxOffset)⟩

/-- Partition, colon, offset. -/
def display (r : Revision) : String :=
  toString r.partition.toNat ++ ":" ++ toString r.offset.toNat

/-- Revisions are ordered by partition, then by offset. -/
instance : Ord Revision where
  compare a b := (compare a.partition b.partition).then (compare a.offset b.offset)

theorem advancedBy_partition (r : Revision) (entries : Nat) :
    (r.advancedBy entries).partition = r.partition := rfl

theorem toNat_offset_advancedBy (r : Revision) (entries : Nat) :
    (r.advancedBy entries).offset.toNat = min (r.offset.toNat + entries) maxOffset := by
  simp only [advancedBy, UInt64.toNat_ofNat', maxOffset, UInt64.size]
  omega

/-! ## Binary form -/

/-- Bytes in the binary form. -/
def encodedSize : Nat := 12

/-- Partition, then offset. -/
def encode (r : Revision) : Bytes :=
  Bytes.ofUInt32 r.partition ++ Bytes.ofUInt64 r.offset

/-- Takes a revision from the front. -/
def decode? (data : Bytes) : Option (Revision × Bytes) := do
  let (partition, rest) ← Bytes.readUInt32? data
  let (offset, rest) ← Bytes.readUInt64? rest
  return (⟨partition, offset⟩, rest)

@[simp] theorem length_encode (r : Revision) : r.encode.length = encodedSize := by
  simp [encode, encodedSize]

@[simp] theorem decode?_encode (r : Revision) (rest : Bytes) :
    decode? (r.encode ++ rest) = some (r, rest) := by
  simp [decode?, encode, List.append_assoc]

theorem decode?_eq_some_iff {data rest : Bytes} {r : Revision} :
    decode? data = some (r, rest) ↔ data = r.encode ++ rest := by
  constructor
  · intro h
    simp only [decode?, Option.bind_eq_bind, Option.bind_eq_some_iff, Prod.exists,
      Option.pure_def, Option.some.injEq, Prod.mk.injEq] at h
    obtain ⟨partition, rest₁, h₁, offset, rest₂, h₂, rfl, rfl⟩ := h
    rw [Bytes.readUInt32?_eq_some_iff.1 h₁, Bytes.readUInt64?_eq_some_iff.1 h₂]
    simp [encode, List.append_assoc]
  · rintro rfl
    exact decode?_encode r rest

end Revision

end CommitLog
