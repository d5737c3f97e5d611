import Radiata.ForStd.Bytes

/-!
# SHA-256

The SHA-256 hash function of FIPS 180-4 on byte strings, as an executable
definition. Nothing is proved about it beyond the width of its output; an argument
that needs two digests to differ says so in a hypothesis about the messages at hand.
-/

namespace Sha256

/-- The eight working variables. -/
structure State where
  a : UInt32
  b : UInt32
  c : UInt32
  d : UInt32
  e : UInt32
  f : UInt32
  g : UInt32
  h : UInt32

/-- The initial hash value (section 5.3.3). -/
def initial : State where
  a := 0x6a09e667
  b := 0xbb67ae85
  c := 0x3c6ef372
  d := 0xa54ff53a
  e := 0x510e527f
  f := 0x9b05688c
  g := 0x1f83d9ab
  h := 0x5be0cd19

/-- The round constants (section 4.2.2). -/
def roundConstants : List UInt32 :=
  [0x428a2f98, 0x71374491, 0xb5c0fbcf, 0xe9b5dba5, 0x3956c25b, 0x59f111f1, 0x923f82a4, 0xab1c5ed5,
   0xd807aa98, 0x12835b01, 0x243185be, 0x550c7dc3, 0x72be5d74, 0x80deb1fe, 0x9bdc06a7, 0xc19bf174,
   0xe49b69c1, 0xefbe4786, 0x0fc19dc6, 0x240ca1cc, 0x2de92c6f, 0x4a7484aa, 0x5cb0a9dc, 0x76f988da,
   0x983e5152, 0xa831c66d, 0xb00327c8, 0xbf597fc7, 0xc6e00bf3, 0xd5a79147, 0x06ca6351, 0x14292967,
   0x27b70a85, 0x2e1b2138, 0x4d2c6dfc, 0x53380d13, 0x650a7354, 0x766a0abb, 0x81c2c92e, 0x92722c85,
   0xa2bfe8a1, 0xa81a664b, 0xc24b8b70, 0xc76c51a3, 0xd192e819, 0xd6990624, 0xf40e3585, 0x106aa070,
   0x19a4c116, 0x1e376c08, 0x2748774c, 0x34b0bcb5, 0x391c0cb3, 0x4ed8aa4a, 0x5b9cca4f, 0x682e6ff3,
   0x748f82ee, 0x78a5636f, 0x84c87814, 0x8cc70208, 0x90befffa, 0xa4506ceb, 0xbef9a3f7, 0xc67178f2]

/-- Right rotation of a word. -/
def rotr (x : UInt32) (n : UInt32) : UInt32 := (x >>> n) ||| (x <<< (32 - n))

/-- Append the `1` bit, the zero padding and the 64-bit message length. -/
def pad (message : Bytes) : Bytes :=
  message ++ 0x80 :: List.replicate ((119 - message.length % 64) % 64) 0
    ++ Bytes.toBE 8 (8 * message.length)

/-- The big-endian words of a byte string. -/
def words : Bytes → List UInt32
  | b₀ :: b₁ :: b₂ :: b₃ :: rest =>
    ((b₀.toUInt32 <<< 24) ||| (b₁.toUInt32 <<< 16) ||| (b₂.toUInt32 <<< 8) ||| b₃.toUInt32)
      :: words rest
  | _ => []

/-- Extend a message schedule, newest word first, by `n` words. -/
def schedule : Nat → List UInt32 → List UInt32
  | 0, ws => ws
  | n + 1, ws =>
    let w₁₅ := ws.getD 14 0
    let w₂ := ws.getD 1 0
    let s₀ := rotr w₁₅ 7 ^^^ rotr w₁₅ 18 ^^^ (w₁₅ >>> 3)
    let s₁ := rotr w₂ 17 ^^^ rotr w₂ 19 ^^^ (w₂ >>> 10)
    schedule n ((s₁ + ws.getD 6 0 + s₀ + ws.getD 15 0) :: ws)

/-- One round of the compression function. -/
def round (s : State) (kw : UInt32 × UInt32) : State :=
  let big₁ := rotr s.e 6 ^^^ rotr s.e 11 ^^^ rotr s.e 25
  let ch := (s.e &&& s.f) ^^^ (~~~s.e &&& s.g)
  let t₁ := s.h + big₁ + ch + kw.1 + kw.2
  let big₀ := rotr s.a 2 ^^^ rotr s.a 13 ^^^ rotr s.a 22
  let maj := (s.a &&& s.b) ^^^ (s.a &&& s.c) ^^^ (s.b &&& s.c)
  { a := t₁ + (big₀ + maj), b := s.a, c := s.b, d := s.c, e := s.d + t₁, f := s.e, g := s.f,
    h := s.g }

/-- Compress one 64-byte block. -/
def compress (s : State) (block : Bytes) : State :=
  let ws := (schedule 48 (words block).reverse).reverse
  let t := (roundConstants.zip ws).foldl round s
  { a := s.a + t.a, b := s.b + t.b, c := s.c + t.c, d := s.d + t.d, e := s.e + t.e,
    f := s.f + t.f, g := s.g + t.g, h := s.h + t.h }

/-- Compress `n` consecutive blocks. -/
def compressBlocks : Nat → State → Bytes → State
  | 0, s, _ => s
  | n + 1, s, bytes => compressBlocks n (compress s (bytes.take 64)) (bytes.drop 64)

/-- The 32 bytes of a final state. -/
def State.bytes (s : State) : Bytes :=
  [s.a, s.b, s.c, s.d, s.e, s.f, s.g, s.h].flatMap (fun w => Bytes.toBE 4 w.toNat)

/-- The SHA-256 hash of a message. -/
def hash (message : Bytes) : Bytes :=
  let padded := pad message
  (compressBlocks (padded.length / 64) initial padded).bytes

@[simp] theorem length_hash (message : Bytes) : (hash message).length = 32 := by
  simp [hash, State.bytes]

/-- The hash of the empty message. -/
example : hash [] =
    [0xe3, 0xb0, 0xc4, 0x42, 0x98, 0xfc, 0x1c, 0x14, 0x9a, 0xfb, 0xf4, 0xc8, 0x99, 0x6f, 0xb9, 0x24,
     0x27, 0xae, 0x41, 0xe4, 0x64, 0x9b, 0x93, 0x4c, 0xa4, 0x95, 0x99, 0x1b, 0x78, 0x52, 0xb8, 0x55] := by
  decide +kernel

end Sha256
