import ProviderMigration.Text.Utf8

/-!
# SHA-256

The digest of a list of bytes, in hexadecimal digits. Words have 32 bits and their sums wrap
around; bytes form words with the highest byte first.
-/

namespace ProviderMigration
namespace Sha256

abbrev Word := UInt32

/-! ## Constants -/

/-- The first words of the fractions of the cube roots of the first 64 primes. -/
def roundConstants : List Word :=
  [0x428a2f98, 0x71374491, 0xb5c0fbcf, 0xe9b5dba5, 0x3956c25b, 0x59f111f1, 0x923f82a4, 0xab1c5ed5,
    0xd807aa98, 0x12835b01, 0x243185be, 0x550c7dc3, 0x72be5d74, 0x80deb1fe, 0x9bdc06a7, 0xc19bf174,
    0xe49b69c1, 0xefbe4786, 0x0fc19dc6, 0x240ca1cc, 0x2de92c6f, 0x4a7484aa, 0x5cb0a9dc, 0x76f988da,
    0x983e5152, 0xa831c66d, 0xb00327c8, 0xbf597fc7, 0xc6e00bf3, 0xd5a79147, 0x06ca6351, 0x14292967,
    0x27b70a85, 0x2e1b2138, 0x4d2c6dfc, 0x53380d13, 0x650a7354, 0x766a0abb, 0x81c2c92e, 0x92722c85,
    0xa2bfe8a1, 0xa81a664b, 0xc24b8b70, 0xc76c51a3, 0xd192e819, 0xd6990624, 0xf40e3585, 0x106aa070,
    0x19a4c116, 0x1e376c08, 0x2748774c, 0x34b0bcb5, 0x391c0cb3, 0x4ed8aa4a, 0x5b9cca4f, 0x682e6ff3,
    0x748f82ee, 0x78a5636f, 0x84c87814, 0x8cc70208, 0x90befffa, 0xa4506ceb, 0xbef9a3f7, 0xc67178f2]

/-- The eight words that a digest is made of. -/
structure State where
  a : Word
  b : Word
  c : Word
  d : Word
  e : Word
  f : Word
  g : Word
  h : Word
deriving Repr, DecidableEq

/-- The first words of the fractions of the square roots of the first eight primes. -/
def initial : State :=
  ⟨0x6a09e667, 0xbb67ae85, 0x3c6ef372, 0xa54ff53a, 0x510e527f, 0x9b05688c, 0x1f83d9ab, 0x5be0cd19⟩

/-! ## Words -/

def rotateRight (x : Word) (count : Word) : Word :=
  (x >>> count) ||| (x <<< (32 - count))

/-- The word of four bytes. -/
def word (a b c d : UInt8) : Word :=
  (a.toUInt32 <<< 24) ||| (b.toUInt32 <<< 16) ||| (c.toUInt32 <<< 8) ||| d.toUInt32

def words : Text.Bytes → List Word
  | a :: b :: c :: d :: rest => word a b c d :: words rest
  | _ => []

/-! ## Blocks -/

/-- The word that follows sixteen words of the schedule. -/
def nextWord (window : List Word) : Word :=
  let x := window.getD 1 0
  let y := window.getD 14 0
  window.getD 0 0 + (rotateRight x 7 ^^^ rotateRight x 18 ^^^ (x >>> 3)) + window.getD 9 0 +
    (rotateRight y 17 ^^^ rotateRight y 19 ^^^ (y >>> 10))

def round (s : State) (constant w : Word) : State :=
  let choice := (s.e &&& s.f) ^^^ (~~~s.e &&& s.g)
  let majority := (s.a &&& s.b) ^^^ (s.a &&& s.c) ^^^ (s.b &&& s.c)
  let t := s.h + (rotateRight s.e 6 ^^^ rotateRight s.e 11 ^^^ rotateRight s.e 25) + choice +
    constant + w
  let u := (rotateRight s.a 2 ^^^ rotateRight s.a 13 ^^^ rotateRight s.a 22) + majority
  ⟨t + u, s.a, s.b, s.c, s.d + t, s.e, s.f, s.g⟩

/-- One round for each constant. The window holds the next sixteen words of the schedule. -/
def rounds (s : State) : List Word → List Word → State
  | constant :: constants, w :: window =>
    rounds (round s constant w) constants (window ++ [nextWord (w :: window)])
  | _, _ => s

/-- Adds a block of sixteen words to a digest. -/
def compress (s : State) (block : List Word) : State :=
  let t := rounds s roundConstants block
  ⟨s.a + t.a, s.b + t.b, s.c + t.c, s.d + t.d, s.e + t.e, s.f + t.f, s.g + t.g, s.h + t.h⟩

/-- Adds the first `count` blocks of a list of words to a digest. -/
def compressAll (s : State) : Nat → List Word → State
  | 0, _ => s
  | count + 1, ws => compressAll (compress s (ws.take 16)) count (ws.drop 16)

/-! ## Digests -/

/-- The highest byte first. -/
def bigEndian (width n : Nat) : Text.Bytes :=
  (List.range width).reverse.map fun i => UInt8.ofNat (n / Nat.pow 256 i)

/-- A message with a one bit, zeros and its length in bits after it, up to a whole number of blocks
of 64 bytes. -/
def padded (message : Text.Bytes) : Text.Bytes :=
  let zeros := (119 - message.length % 64) % 64
  message ++ [0x80] ++ List.replicate zeros 0 ++ bigEndian 8 (8 * message.length)

def State.words (s : State) : List Word :=
  [s.a, s.b, s.c, s.d, s.e, s.f, s.g, s.h]

/-- A byte in two hexadecimal digits. -/
def hexByte (b : UInt8) : List Char :=
  [Nat.digitChar (b.toNat / 16), Nat.digitChar (b.toNat % 16)]

/-- The digest of a message. -/
def digest (message : Text.Bytes) : String :=
  let bytes := padded message
  let s := compressAll initial (bytes.length / 64) (words bytes)
  String.ofList ((s.words.flatMap fun w => bigEndian 4 w.toNat).flatMap hexByte)

end Sha256
end ProviderMigration
