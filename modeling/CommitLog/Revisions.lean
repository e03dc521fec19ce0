import CommitLog.Revision

/-!
# Revisions of several partitions

At most one position for each partition: the tail of a topic, or the checkpoint of a consumer. A
partition that is not recorded stands at its origin. The positions are kept in ascending partition
order, so that two equal checkpoints are the same value and have the same binary form: their
count in four bytes, then every position in order.

Reading a binary form consumes what it has looked at even when it fails: a buffer that is too
short for the announced count has lost the count.
-/

namespace CommitLog

/-- Positions by partition, in ascending partition order. -/
structure Revisions where
  positions : List (UInt32 × UInt64) := []
  sorted : positions.Pairwise (fun a b => a.1 < b.1) := by exact List.Pairwise.nil
deriving DecidableEq, Repr

namespace Revisions

/-- Nothing recorded: every partition is at its origin. -/
def empty : Revisions := {}

instance : Inhabited Revisions := ⟨empty⟩

/-! ## Placing a position -/

/-- Puts a partition's offset in its place, over whatever stood there. -/
def place (partition : UInt32) (offset : UInt64) :
    List (UInt32 × UInt64) → List (UInt32 × UInt64)
  | [] => [(partition, offset)]
  | (p, o) :: rest =>
    if partition < p then (partition, offset) :: (p, o) :: rest
    else if partition = p then (partition, offset) :: rest
    else (p, o) :: place partition offset rest

theorem mem_place {partition : UInt32} {offset : UInt64} {positions : List (UInt32 × UInt64)}
    {x : UInt32 × UInt64} (h : x ∈ place partition offset positions) :
    x = (partition, offset) ∨ x ∈ positions := by
  induction positions with
  | nil => simpa [place] using h
  | cons head rest ih =>
    obtain ⟨p, o⟩ := head
    simp only [place] at h
    split at h
    · simpa using h
    · split at h
      · simp only [List.mem_cons] at h ⊢
        rcases h with h | h
        · exact .inl h
        · exact .inr (.inr h)
      · simp only [List.mem_cons] at h ⊢
        rcases h with h | h
        · exact .inr (.inl h)
        · rcases ih h with h | h
          · exact .inl h
          · exact .inr (.inr h)

theorem pairwise_place (partition : UInt32) (offset : UInt64)
    {positions : List (UInt32 × UInt64)} (h : positions.Pairwise (fun a b => a.1 < b.1)) :
    (place partition offset positions).Pairwise (fun a b => a.1 < b.1) := by
  induction positions with
  | nil => simp [place]
  | cons head rest ih =>
    obtain ⟨p, o⟩ := head
    obtain ⟨hhead, hrest⟩ := List.pairwise_cons.1 h
    simp only [place]
    split
    next hlt =>
      refine List.pairwise_cons.2 ⟨fun x hx => ?_, h⟩
      rcases List.mem_cons.1 hx with rfl | hx
      · exact hlt
      · exact UInt32.lt_trans hlt (hhead x hx)
    next hlt =>
      split
      next heq => exact List.pairwise_cons.2 ⟨fun x hx => heq ▸ hhead x hx, hrest⟩
      next hne =>
        refine List.pairwise_cons.2 ⟨fun x hx => ?_, ih hrest⟩
        rcases mem_place hx with rfl | hx
        · exact UInt32.lt_of_le_of_ne (UInt32.not_lt.1 hlt) (Ne.symm hne)
        · exact hhead x hx

/-! ## Looking up and moving -/

/-- The offset recorded for a partition. -/
def offset? (rs : Revisions) (partition : UInt32) : Option UInt64 :=
  rs.positions.lookup partition

/-- The position of a partition; one that is not recorded is at its origin. -/
def get (rs : Revisions) (partition : UInt32) : Revision :=
  ⟨partition, (rs.offset? partition).getD 0⟩

/-- Whether a position is recorded for a partition. -/
def contains (rs : Revisions) (partition : UInt32) : Bool :=
  (rs.offset? partition).isSome

/-- Records a position over whatever was recorded for its partition. -/
def set (rs : Revisions) (r : Revision) : Revisions :=
  ⟨place r.partition r.offset rs.positions, pairwise_place _ _ rs.sorted⟩

/-- Records the later of a position and the one held for its partition. -/
def advance (rs : Revisions) (r : Revision) : Revisions :=
  rs.set ⟨r.partition, max r.offset (rs.get r.partition).offset⟩

/-- Whether a position is at or behind the one held for its partition. -/
def covers (rs : Revisions) (r : Revision) : Bool :=
  decide (r.offset ≤ (rs.get r.partition).offset)

/-- How many partitions are recorded. -/
def size (rs : Revisions) : Nat := rs.positions.length

/-- Whether no partition is recorded. -/
def isEmpty (rs : Revisions) : Bool := rs.positions.isEmpty

/-- The recorded positions in ascending partition order. -/
def toList (rs : Revisions) : List Revision :=
  rs.positions.map fun (partition, offset) => ⟨partition, offset⟩

/-- Records positions one after another, a later one over an earlier one. -/
def ofList (rs : List Revision) : Revisions := rs.foldl set empty

/-- The positions as a term: partition and offset of each, in braces. -/
def display (rs : Revisions) : String :=
  "Revisions \x7b positions: \x7b"
    ++ ", ".intercalate (rs.toList.map fun r =>
      toString r.partition.toNat ++ ": " ++ toString r.offset.toNat)
    ++ "\x7d \x7d"

/-! ## Binary form -/

/-- The most positions that a binary form can announce. -/
def maxCount : Nat := UInt32.size - 1

/-- The count, then each position in ascending partition order. -/
def encode (rs : Revisions) : Bytes :=
  let count := min rs.size maxCount
  Bytes.ofUInt32 (UInt32.ofNat count) ++ (rs.toList.take count).flatMap Revision.encode

/-- Takes `n` positions from the front, recording each over what came before. -/
def decodePositions? : Nat → Revisions → Bytes → Option (Revisions × Bytes)
  | 0, rs, data => some (rs, data)
  | n + 1, rs, data => do
    let (r, rest) ← Revision.decode? data
    decodePositions? n (rs.set r) rest

/-- Takes a counted sequence of positions from the front. The second part is what is left of the
data, on failure too. -/
def decode (data : Bytes) : Option Revisions × Bytes :=
  match Bytes.readUInt32? data with
  | none => (none, data)
  | some (count, rest) =>
    if rest.length < count.toNat * Revision.encodedSize then (none, rest)
    else
      match decodePositions? count.toNat empty rest with
      | none => (none, rest)
      | some (rs, rest) => (some rs, rest)

end Revisions

end CommitLog
