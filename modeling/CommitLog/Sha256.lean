import CommitLog.Bytes

/-!
# SHA-256

The hash of FIPS 180-4. A message is padded to whole blocks of 64 bytes; each block gives a
schedule of 64 words, which are mixed one after another into a state of eight words.
-/

namespace CommitLog.Sha256

/-- The fractional parts of the cube roots of the first 64 primes. -/
def roundConstants : List UInt32 :=
  [0x428a2f98, 0x71374491, 0xb5c0fbcf, 0xe9b5dba5, 0x3956c25b, 0x59f111f1,
    0x923f82a4, 0xab1c5ed5, 0xd807aa98, 0x12835b01, 0x243185be, 0x550c7dc3,
    0x72be5d74, 0x80deb1fe, 0x9bdc06a7, 0xc19bf174, 0xe49b69c1, 0xefbe4786,
    0x0fc19dc6, 0x240ca1cc, 0x2de92c6f, 0x4a7484aa, 0x5cb0a9dc, 0x76f988da,
    0x983e5152, 0xa831c66d, 0xb00327c8, 0xbf597fc7, 0xc6e00bf3, 0xd5a79147,
    0x06ca6351, 0x14292967, 0x27b70a85, 0x2e1b2138, 0x4d2c6dfc, 0x53380d13,
    0x650a7354, 0x766a0abb, 0x81c2c92e, 0x92722c85, 0xa2bfe8a1, 0xa81a664b,
    0xc24b8b70, 0xc76c51a3, 0xd192e819, 0xd6990624, 0xf40e3585, 0x106aa070,
    0x19a4c116, 0x1e376c08, 0x2748774c, 0x34b0bcb5, 0x391c0cb3, 0x4ed8aa4a,
    0x5b9cca4f, 0x682e6ff3, 0x748f82ee, 0x78a5636f, 0x84c87814, 0x8cc70208,
    0x90befffa, 0xa4506ceb, 0xbef9a3f7, 0xc67178f2]

/-- The state of eight words. -/
structure State where
  a : UInt32
  b : UInt32
  c : UInt32
  d : UInt32
  e : UInt32
  f : UInt32
  g : UInt32
  h : UInt32
deriving DecidableEq, Repr, Inhabited

/-- The fractional parts of the square roots of the first eight primes. -/
def initialState : State :=
  ⟨0x6a09e667, 0xbb67ae85, 0x3c6ef372, 0xa54ff53a,
    0x510e527f, 0x9b05688c, 0x1f83d9ab, 0x5be0cd19⟩

/-- Rotates a word to the right. -/
def rotate (x : UInt32) (n : UInt32) : UInt32 := x >>> n ||| x <<< (32 - n)

/-! ## Padding -/

/-- Bytes of a block. -/
def blockSize : Nat := 64

/-- The message, a one bit, zeros, and the count of its bits in eight bytes, most significant
first. -/
def pad (message : Bytes) : Bytes :=
  let length := message.length
  let zeros := (2 * blockSize - 9 - length % blockSize) % blockSize
  message ++ 0x80 :: (List.replicate zeros 0 ++ (Bytes.ofNat 8 (8 * length)).reverse)

/-- The words of a row of bytes, most significant byte first. -/
def words : Bytes → List UInt32
  | a :: b :: c :: d :: rest => UInt32.ofNat (Bytes.toNat [d, c, b, a]) :: words rest
  | _ => []

/-! ## Schedule and rounds -/

/-- The next word of a schedule, from its words so far in reverse order. -/
def nextWord (reversed : List UInt32) : UInt32 :=
  let back (n : Nat) : UInt32 := reversed.getD (n - 1) 0
  let s0 := rotate (back 15) 7 ^^^ rotate (back 15) 18 ^^^ back 15 >>> 3
  let s1 := rotate (back 2) 17 ^^^ rotate (back 2) 19 ^^^ back 2 >>> 10
  back 16 + s0 + back 7 + s1

/-- Appends `n` words to a schedule in reverse order. -/
def extendSchedule : Nat → List UInt32 → List UInt32
  | 0, reversed => reversed
  | n + 1, reversed => extendSchedule n (nextWord reversed :: reversed)

/-- The 64 words of a block. -/
def schedule (block : Bytes) : List UInt32 := (extendSchedule 48 (words block).reverse).reverse

/-- Mixes one word and its constant into the state. -/
def round (s : State) (input : UInt32 × UInt32) : State :=
  let s1 := rotate s.e 6 ^^^ rotate s.e 11 ^^^ rotate s.e 25
  let choice := (s.e &&& s.f) ^^^ (~~~s.e &&& s.g)
  let t1 := s.h + s1 + choice + input.1 + input.2
  let s0 := rotate s.a 2 ^^^ rotate s.a 13 ^^^ rotate s.a 22
  let majority := (s.a &&& s.b) ^^^ (s.a &&& s.c) ^^^ (s.b &&& s.c)
  ⟨t1 + s0 + majority, s.a, s.b, s.c, s.d + t1, s.e, s.f, s.g⟩

/-- Mixes a block into the state. -/
def compress (s : State) (block : Bytes) : State :=
  let t := (roundConstants.zip (schedule block)).foldl round s
  ⟨s.a + t.a, s.b + t.b, s.c + t.c, s.d + t.d, s.e + t.e, s.f + t.f, s.g + t.g, s.h + t.h⟩

/-- Mixes `n` blocks from the front of the data into the state. -/
def compressBlocks : Nat → State → Bytes → State
  | 0, s, _ => s
  | n + 1, s, data =>
    compressBlocks n (compress s (data.take blockSize)) (data.drop blockSize)

/-- A word, most significant byte first. -/
def wordBytes (word : UInt32) : Bytes := (Bytes.ofUInt32 word).reverse

/-- The 32 bytes of the hash. -/
def digest (message : Bytes) : Bytes :=
  let padded := pad message
  let s := compressBlocks (padded.length / blockSize) initialState padded
  [s.a, s.b, s.c, s.d, s.e, s.f, s.g, s.h].flatMap wordBytes

theorem length_digest (message : Bytes) : (digest message).length = 32 := by
  simp [digest, wordBytes, Bytes.ofUInt32]

end CommitLog.Sha256
