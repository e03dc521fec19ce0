/-!
# Byte sequences and little-endian words

Everything the log writes is a sequence of bytes. A fixed-width word is written least significant
byte first. A reader takes its bytes from the front of the data and hands back what is left, so
that readers compose by passing the rest on.

The main statements say that a word reads back as it was written, whatever follows it, and that
`split?` takes exactly what it was asked for.
-/

namespace CommitLog

/-- A finite sequence of bytes. -/
abbrev Bytes := List UInt8

namespace Bytes

/-! ## Words of a given width -/

/-- The `width` low bytes of `n`, least significant first. -/
def ofNat : Nat → Nat → Bytes
  | 0, _ => []
  | width + 1, n => UInt8.ofNat n :: ofNat width (n / 256)

/-- The number whose bytes, least significant first, are the given ones. -/
def toNat : Bytes → Nat
  | [] => 0
  | b :: rest => b.toNat + 256 * toNat rest

/-- How many numbers `width` bytes can tell apart. -/
def wordCount : Nat → Nat
  | 0 => 1
  | width + 1 => 256 * wordCount width

theorem wordCount_four : wordCount 4 = UInt32.size := rfl

theorem wordCount_eight : wordCount 8 = UInt64.size := rfl

@[simp] theorem length_ofNat (width n : Nat) : (ofNat width n).length = width := by
  induction width generalizing n with
  | zero => rfl
  | succ width ih => simp [ofNat, ih]

theorem toNat_ofNat (width n : Nat) : toNat (ofNat width n) = n % wordCount width := by
  induction width generalizing n with
  | zero => simp [ofNat, toNat, wordCount, Nat.mod_one]
  | succ width ih =>
    rw [wordCount, Nat.mod_mul]
    simp only [ofNat, toNat, ih, UInt8.toNat_ofNat']

theorem toNat_lt (data : Bytes) : toNat data < wordCount data.length := by
  induction data with
  | nil => simp [toNat, wordCount]
  | cons b rest ih =>
    have hb : b.toNat < 256 := b.toNat_lt
    simp only [toNat, List.length_cons, wordCount]
    omega

theorem ofNat_toNat (data : Bytes) : ofNat data.length (toNat data) = data := by
  induction data with
  | nil => rfl
  | cons b rest ih =>
    have hb : b.toNat < 256 := b.toNat_lt
    have hlow : UInt8.ofNat (b.toNat + 256 * toNat rest) = b := by
      apply UInt8.toNat.inj
      rw [UInt8.toNat_ofNat']
      omega
    have hhigh : (b.toNat + 256 * toNat rest) / 256 = toNat rest := by omega
    simp only [List.length_cons, toNat, ofNat, hlow, hhigh, ih]

theorem toNat_inj {data other : Bytes} (hlength : data.length = other.length)
    (h : toNat data = toNat other) : data = other := by
  rw [← ofNat_toNat data, hlength, h, ofNat_toNat]

/-! ## Taking bytes from the front -/

/-- The first `n` bytes and the rest, if there are that many. -/
def split? : Nat → Bytes → Option (Bytes × Bytes)
  | 0, data => some ([], data)
  | _ + 1, [] => none
  | n + 1, b :: data => (split? n data).map fun (front, rest) => (b :: front, rest)

theorem split?_eq (n : Nat) (data : Bytes) :
    split? n data = if n ≤ data.length then some (data.take n, data.drop n) else none := by
  induction n generalizing data with
  | zero => simp [split?]
  | succ n ih =>
    cases data with
    | nil => simp [split?]
    | cons b data =>
      by_cases h : n ≤ data.length <;> simp [split?, ih, h]

theorem split?_eq_some_iff {n : Nat} {data front rest : Bytes} :
    split? n data = some (front, rest) ↔ data = front ++ rest ∧ front.length = n := by
  rw [split?_eq]
  constructor
  · intro h
    split at h
    · simp only [Option.some.injEq, Prod.mk.injEq] at h
      obtain ⟨rfl, rfl⟩ := h
      simp [List.take_append_drop, *]
    · simp at h
  · rintro ⟨rfl, rfl⟩
    simp

@[simp] theorem split?_append (front rest : Bytes) :
    split? front.length (front ++ rest) = some (front, rest) :=
  split?_eq_some_iff.2 ⟨rfl, rfl⟩

/-! ## 32-bit and 64-bit words -/

/-- The four bytes of a 32-bit word. -/
def ofUInt32 (n : UInt32) : Bytes := ofNat 4 n.toNat

/-- The eight bytes of a 64-bit word. -/
def ofUInt64 (n : UInt64) : Bytes := ofNat 8 n.toNat

/-- Takes a 32-bit word from the front. -/
def readUInt32? (data : Bytes) : Option (UInt32 × Bytes) :=
  (split? 4 data).map fun (word, rest) => (UInt32.ofNat (toNat word), rest)

/-- Takes a 64-bit word from the front. -/
def readUInt64? (data : Bytes) : Option (UInt64 × Bytes) :=
  (split? 8 data).map fun (word, rest) => (UInt64.ofNat (toNat word), rest)

@[simp] theorem length_ofUInt32 (n : UInt32) : (ofUInt32 n).length = 4 := length_ofNat ..

@[simp] theorem length_ofUInt64 (n : UInt64) : (ofUInt64 n).length = 8 := length_ofNat ..

@[simp] theorem readUInt32?_ofUInt32 (n : UInt32) (rest : Bytes) :
    readUInt32? (ofUInt32 n ++ rest) = some (n, rest) := by
  have hlt := n.toNat_lt
  have hs := split?_append (ofUInt32 n) rest
  rw [length_ofUInt32] at hs
  simp only [readUInt32?, hs, Option.map_some, Option.some.injEq, Prod.mk.injEq, and_true]
  rw [ofUInt32, toNat_ofNat, wordCount_four, Nat.mod_eq_of_lt hlt]
  simp

@[simp] theorem readUInt64?_ofUInt64 (n : UInt64) (rest : Bytes) :
    readUInt64? (ofUInt64 n ++ rest) = some (n, rest) := by
  have hlt := n.toNat_lt
  have hs := split?_append (ofUInt64 n) rest
  rw [length_ofUInt64] at hs
  simp only [readUInt64?, hs, Option.map_some, Option.some.injEq, Prod.mk.injEq, and_true]
  rw [ofUInt64, toNat_ofNat, wordCount_eight, Nat.mod_eq_of_lt hlt]
  simp

theorem readUInt32?_eq_some_iff {data rest : Bytes} {n : UInt32} :
    readUInt32? data = some (n, rest) ↔ data = ofUInt32 n ++ rest := by
  constructor
  · intro h
    simp only [readUInt32?, Option.map_eq_some_iff, Prod.mk.injEq] at h
    obtain ⟨⟨word, rest'⟩, hs, rfl, rfl⟩ := h
    obtain ⟨rfl, hlen⟩ := split?_eq_some_iff.1 hs
    have hlt := toNat_lt word
    have hback := ofNat_toNat word
    rw [hlen] at hlt hback
    rw [wordCount_four] at hlt
    simp only [ofUInt32, UInt32.toNat_ofNat']
    rw [Nat.mod_eq_of_lt (by simpa using hlt), hback]
  · rintro rfl
    exact readUInt32?_ofUInt32 n rest

theorem readUInt64?_eq_some_iff {data rest : Bytes} {n : UInt64} :
    readUInt64? data = some (n, rest) ↔ data = ofUInt64 n ++ rest := by
  constructor
  · intro h
    simp only [readUInt64?, Option.map_eq_some_iff, Prod.mk.injEq] at h
    obtain ⟨⟨word, rest'⟩, hs, rfl, rfl⟩ := h
    obtain ⟨rfl, hlen⟩ := split?_eq_some_iff.1 hs
    have hlt := toNat_lt word
    have hback := ofNat_toNat word
    rw [hlen] at hlt hback
    rw [wordCount_eight] at hlt
    simp only [ofUInt64, UInt64.toNat_ofNat']
    rw [Nat.mod_eq_of_lt (by simpa using hlt), hback]
  · rintro rfl
    exact readUInt64?_ofUInt64 n rest

theorem readUInt32?_eq_none_iff {data : Bytes} : readUInt32? data = none ↔ data.length < 4 := by
  simp [readUInt32?, split?_eq]

theorem readUInt64?_eq_none_iff {data : Bytes} : readUInt64? data = none ↔ data.length < 8 := by
  simp [readUInt64?, split?_eq]

end Bytes

end CommitLog
