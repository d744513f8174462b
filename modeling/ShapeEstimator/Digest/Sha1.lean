/-
  ShapeEstimator.Digest.Sha1
  ────────────────────────────────
  **THE SHA-1 DIGEST.**

  A message is padded to blocks of 64 bytes.  Each block takes the five words of
  the state through 80 rounds; the words a round reads slide through a window of
  sixteen that starts as the block itself.
-/
import ShapeEstimator.Power

namespace ShapeEstimator.Digest

/-! ## §1. Words. -/

/-- The word rotated to the left, for `0 < n < 32`. -/
def rotateLeft (x n : UInt32) : UInt32 := (x <<< n) ||| (x >>> (32 - n))

/-- The word of four bytes, the most significant one first. -/
def wordOfBytes (bytes : List UInt8) : UInt32 :=
  bytes.foldl (fun w b => (w <<< 8) ||| b.toUInt32) 0

/-- The four bytes of a word, the most significant one first. -/
def bytesOfWord (w : UInt32) : List UInt8 :=
  [(w >>> 24).toUInt8, (w >>> 16).toUInt8, (w >>> 8).toUInt8, w.toUInt8]

/-- The words of a list of bytes, `n` of them. -/
def words : Nat → List UInt8 → List UInt32
  | 0, _ => []
  | n + 1, bytes => wordOfBytes (bytes.take 4) :: words n (bytes.drop 4)

/-! ## §2. Rounds. -/

/-- The state between rounds. -/
structure Sha1State where
  /-- First word. -/
  a : UInt32
  /-- Second word. -/
  b : UInt32
  /-- Third word. -/
  c : UInt32
  /-- Fourth word. -/
  d : UInt32
  /-- Fifth word. -/
  e : UInt32

namespace Sha1State

/-- The state before the first block. -/
def start : Sha1State := ⟨0x67452301, 0xEFCDAB89, 0x98BADCFE, 0x10325476, 0xC3D2E1F0⟩

/-- The sum of two states, word by word. -/
def add (x y : Sha1State) : Sha1State :=
  ⟨x.a + y.a, x.b + y.b, x.c + y.c, x.d + y.d, x.e + y.e⟩

/-- The bytes of a state. -/
def bytes (s : Sha1State) : List UInt8 := [s.a, s.b, s.c, s.d, s.e].flatMap bytesOfWord

/-- The mixing function and constant of a round. -/
def mix (s : Sha1State) (round : Nat) : UInt32 :=
  if round < 20 then ((s.b &&& s.c) ||| (~~~s.b &&& s.d)) + 0x5A827999
  else if round < 40 then (s.b ^^^ s.c ^^^ s.d) + 0x6ED9EBA1
  else if round < 60 then ((s.b &&& s.c) ||| (s.b &&& s.d) ||| (s.c &&& s.d)) + 0x8F1BBCDC
  else (s.b ^^^ s.c ^^^ s.d) + 0xCA62C1D6

/-- One round with its word. -/
def step (s : Sha1State) (round : Nat) (word : UInt32) : Sha1State :=
  ⟨rotateLeft s.a 5 + s.mix round + s.e + word, s.a, rotateLeft s.b 30, s.c, s.d⟩

/-- The next window: its first word leaves and a mixture of four of its words joins. -/
def slide (window : List UInt32) : List UInt32 :=
  window.drop 1
    ++ [rotateLeft (window.getD 13 0 ^^^ window.getD 8 0 ^^^ window.getD 2 0 ^^^ window.getD 0 0) 1]

/-- The last `n` of the 80 rounds. -/
def rounds : Nat → List UInt32 → Sha1State → Sha1State
  | 0, _, s => s
  | n + 1, window, s => rounds n (slide window) (s.step (79 - n) (window.getD 0 0))

/-- The state after a block. -/
def absorb (s : Sha1State) (block : List UInt8) : Sha1State :=
  s.add (rounds 80 (words 16 block) s)

end Sha1State

/-! ## §3. Messages. -/

/-- The message with a one bit, zeros, and its length in bits as eight bytes. -/
def padded (message : List UInt8) : List UInt8 :=
  let bits := 8 * message.length
  let zeros := (119 - message.length % 64) % 64
  message ++ [0x80] ++ List.replicate zeros 0
    ++ (List.range 8).map fun i => UInt8.ofNat (bits / 256 ^ (7 - i))

/-- The state after `n` blocks. -/
def absorbBlocks : Nat → List UInt8 → Sha1State → Sha1State
  | 0, _, s => s
  | n + 1, bytes, s => absorbBlocks n (bytes.drop 64) (s.absorb (bytes.take 64))

/-- The twenty bytes of the digest. -/
def sha1 (message : List UInt8) : List UInt8 :=
  let bytes := padded message
  (absorbBlocks (bytes.length / 64) bytes .start).bytes

end ShapeEstimator.Digest
