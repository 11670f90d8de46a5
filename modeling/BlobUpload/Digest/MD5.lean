import BlobUpload.Bytes

/-! # The MD5 message digest -/

namespace BlobUpload.MD5

/-- The four chaining words. -/
structure Chain where
  a : UInt32
  b : UInt32
  c : UInt32
  d : UInt32

namespace Chain

def initial : Chain := ⟨0x67452301, 0xefcdab89, 0x98badcfe, 0x10325476⟩

def add (s t : Chain) : Chain := ⟨s.a + t.a, s.b + t.b, s.c + t.c, s.d + t.d⟩

end Chain

/-- One of the four rounds: how it mixes three chaining words, the message word that its step `i`
takes, and the four rotations that its steps use in turn. -/
structure Round where
  mix : UInt32 → UInt32 → UInt32 → UInt32
  word : Nat → Nat
  rotations : List UInt32

def rounds : List Round := [
  ⟨fun x y z => (x &&& y) ||| (~~~x &&& z), fun i => i, [7, 12, 17, 22]⟩,
  ⟨fun x y z => (x &&& z) ||| (y &&& ~~~z), fun i => 5 * i + 1, [5, 9, 14, 20]⟩,
  ⟨fun x y z => x ^^^ y ^^^ z, fun i => 3 * i + 5, [4, 11, 16, 23]⟩,
  ⟨fun x y z => y ^^^ (x ||| ~~~z), fun i => 7 * i, [6, 10, 15, 21]⟩]

/-- The integer part of `2 ^ 32 * |sin i|` for `i` from 1 to 64, a row per round. -/
def sines : List (List UInt32) := [
  [0xd76aa478, 0xe8c7b756, 0x242070db, 0xc1bdceee, 0xf57c0faf, 0x4787c62a, 0xa8304613, 0xfd469501,
   0x698098d8, 0x8b44f7af, 0xffff5bb1, 0x895cd7be, 0x6b901122, 0xfd987193, 0xa679438e, 0x49b40821],
  [0xf61e2562, 0xc040b340, 0x265e5a51, 0xe9b6c7aa, 0xd62f105d, 0x02441453, 0xd8a1e681, 0xe7d3fbc8,
   0x21e1cde6, 0xc33707d6, 0xf4d50d87, 0x455a14ed, 0xa9e3e905, 0xfcefa3f8, 0x676f02d9, 0x8d2a4c8a],
  [0xfffa3942, 0x8771f681, 0x6d9d6122, 0xfde5380c, 0xa4beea44, 0x4bdecfa9, 0xf6bb4b60, 0xbebfbc70,
   0x289b7ec6, 0xeaa127fa, 0xd4ef3085, 0x04881d05, 0xd9d4d039, 0xe6db99e5, 0x1fa27cf8, 0xc4ac5665],
  [0xf4292244, 0x432aff97, 0xab9423a7, 0xfc93a039, 0x655b59c3, 0x8f0ccc92, 0xffeff47d, 0x85845dd1,
   0x6fa87e4f, 0xfe2ce6e0, 0xa3014314, 0x4e0811a1, 0xf7537e82, 0xbd3af235, 0x2ad7d2bb, 0xeb86d391]]

/-- One of the 64 steps, with everything that does not depend on the message filled in. -/
structure Step where
  mix : UInt32 → UInt32 → UInt32 → UInt32
  word : Fin 16
  rotation : UInt32
  sine : UInt32

def Round.steps (r : Round) (sines : List UInt32) : List Step :=
  sines.zipIdx.map fun (sine, i) =>
    ⟨r.mix, Fin.ofNat 16 (r.word i), r.rotations.getD (i % 4) 0, sine⟩

def steps : List Step := (rounds.zip sines).flatMap fun (r, row) => r.steps row

/-- Rotation to the left by `n` bits, `0 < n < 32`. -/
def rotate (x n : UInt32) : UInt32 := (x <<< n) ||| (x >>> (32 - n))

/-- A block of the message: sixteen words. -/
abbrev Block := Vector UInt32 16

def Step.apply (m : Block) (s : Chain) (step : Step) : Chain :=
  let sum := s.a + step.mix s.b s.c s.d + m.get step.word + step.sine
  ⟨s.d, s.b + rotate sum step.rotation, s.b, s.c⟩

def compress (s : Chain) (m : Block) : Chain := (steps.foldl (Step.apply m) s).add s

/-- The little-endian word of four bytes. -/
def word (a b c d : UInt8) : UInt32 :=
  a.toUInt32 ||| (b.toUInt32 <<< 8) ||| (c.toUInt32 <<< 16) ||| (d.toUInt32 <<< 24)

/-- The four bytes of a word, lowest first. -/
def wordBytes (w : UInt32) : Bytes :=
  [w.toUInt8, (w >>> 8).toUInt8, (w >>> 16).toUInt8, (w >>> 24).toUInt8]

/-- The words of a byte string of whole words. -/
def words : Bytes → List UInt32
  | a :: b :: c :: d :: rest => word a b c d :: words rest
  | _ => []

def blocks : List UInt32 → List Block
  | w0 :: w1 :: w2 :: w3 :: w4 :: w5 :: w6 :: w7 :: w8 :: w9 :: w10 :: w11 :: w12 :: w13 :: w14 ::
      w15 :: rest =>
    #v[w0, w1, w2, w3, w4, w5, w6, w7, w8, w9, w10, w11, w12, w13, w14, w15] :: blocks rest
  | _ => []

/-- The message, a one bit, zeros up to 8 bytes below a block boundary, and the message's length
in bits as a little-endian number of 64 bits. -/
def pad (message : Bytes) : Bytes :=
  let bits := message.length * 8
  message ++ 0x80 :: List.replicate ((119 - message.length % 64) % 64) 0 ++
    (wordBytes bits.toUInt32 ++ wordBytes (bits.shiftRight 32).toUInt32)

def digest (message : Bytes) : Bytes :=
  let s := (blocks (words (pad message))).foldl compress Chain.initial
  wordBytes s.a ++ wordBytes s.b ++ wordBytes s.c ++ wordBytes s.d

theorem length_digest (message : Bytes) : (digest message).length = 16 := rfl

end BlobUpload.MD5
