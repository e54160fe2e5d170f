import BitEquiv.Text.Sha256

/-!
# Other digests of byte strings

Digests that are made of words of 32 bits, as SHA-256 is: MD5 (RFC 1321), SHA-1
(FIPS 180-4), and the cyclic redundancy check of POSIX.
-/

namespace BitEquiv
namespace Text

def rotateLeft (x : UInt32) (n : UInt32) : UInt32 := (x <<< n) ||| (x >>> (32 - n))

/-- The `count` low bytes of a number, lowest first. -/
def littleEndian : Nat → Nat → Bytes
  | 0, _ => []
  | count + 1, n => UInt8.ofNat (n % 256) :: littleEndian count (n / 256)

structure Quad where
  a : UInt32
  b : UInt32
  c : UInt32
  d : UInt32

namespace Md5

/-- The constants of the rounds: parts of the sines of the first 64 numbers. -/
def sines : List UInt32 :=
  [0xd76aa478, 0xe8c7b756, 0x242070db, 0xc1bdceee, 0xf57c0faf, 0x4787c62a, 0xa8304613, 0xfd469501,
   0x698098d8, 0x8b44f7af, 0xffff5bb1, 0x895cd7be, 0x6b901122, 0xfd987193, 0xa679438e, 0x49b40821,
   0xf61e2562, 0xc040b340, 0x265e5a51, 0xe9b6c7aa, 0xd62f105d, 0x02441453, 0xd8a1e681, 0xe7d3fbc8,
   0x21e1cde6, 0xc33707d6, 0xf4d50d87, 0x455a14ed, 0xa9e3e905, 0xfcefa3f8, 0x676f02d9, 0x8d2a4c8a,
   0xfffa3942, 0x8771f681, 0x6d9d6122, 0xfde5380c, 0xa4beea44, 0x4bdecfa9, 0xf6bb4b60, 0xbebfbc70,
   0x289b7ec6, 0xeaa127fa, 0xd4ef3085, 0x04881d05, 0xd9d4d039, 0xe6db99e5, 0x1fa27cf8, 0xc4ac5665,
   0xf4292244, 0x432aff97, 0xab9423a7, 0xfc93a039, 0x655b59c3, 0x8f0ccc92, 0xffeff47d, 0x85845dd1,
   0x6fa87e4f, 0xfe2ce6e0, 0xa3014314, 0x4e0811a1, 0xf7537e82, 0xbd3af235, 0x2ad7d2bb, 0xeb86d391]

/-- The rotations of a round: four that take turns in each quarter. -/
def shifts : List (List UInt32) :=
  [[7, 12, 17, 22], [5, 9, 14, 20], [4, 11, 16, 23], [6, 10, 15, 21]]

def round (block : Array UInt32) (s : Quad) (i : Nat) (sine : UInt32) : Quad :=
  let (f, g) :=
    if i < 16 then ((s.b &&& s.c) ||| (~~~s.b &&& s.d), i)
    else if i < 32 then ((s.d &&& s.b) ||| (~~~s.d &&& s.c), (5 * i + 1) % 16)
    else if i < 48 then (s.b ^^^ s.c ^^^ s.d, (3 * i + 5) % 16)
    else (s.c ^^^ (s.b ||| ~~~s.d), 7 * i % 16)
  let sum := f + s.a + sine + block.getD g 0
  let shift := (shifts.getD (i / 16) []).getD (i % 4) 0
  ⟨s.d, s.b + rotateLeft sum shift, s.b, s.c⟩

/-- The words of a byte string, whose bytes come lowest first. -/
def wordsOf : Bytes → List UInt32
  | b0 :: b1 :: b2 :: b3 :: rest =>
      ((b3.toUInt32 <<< 24) ||| (b2.toUInt32 <<< 16) ||| (b1.toUInt32 <<< 8) ||| b0.toUInt32)
        :: wordsOf rest
  | _ => []

def compress (s : Quad) (block : List UInt32) : Quad :=
  let words := block.toArray
  let t := sines.zipIdx.foldl (fun t (sine, i) => round words t i sine) s
  ⟨s.a + t.a, s.b + t.b, s.c + t.c, s.d + t.d⟩

/-- A message with the closing bit, zeros, and its length in bits. -/
def pad (message : Bytes) : Bytes :=
  let zeros := (119 - message.length % 64) % 64
  message ++ [0x80] ++ List.replicate zeros 0 ++ littleEndian 8 (message.length * 8)

def blocks : Nat → Quad → List UInt32 → Quad
  | 0, s, _ => s
  | count + 1, s, ws =>
      if ws.isEmpty then s else blocks count (compress s (ws.take 16)) (ws.drop 16)

def digest (message : Bytes) : Bytes :=
  let ws := wordsOf (pad message)
  let s := blocks (ws.length / 16) ⟨0x67452301, 0xefcdab89, 0x98badcfe, 0x10325476⟩ ws
  [s.a, s.b, s.c, s.d].flatMap fun w => littleEndian 4 w.toNat

end Md5

namespace Sha1

structure State where
  quad : Quad
  e : UInt32

def round (s : State) (i : Nat) (word : UInt32) : State :=
  let q := s.quad
  let (f, k) :=
    if i < 20 then ((q.b &&& q.c) ||| (~~~q.b &&& q.d), 0x5a827999)
    else if i < 40 then (q.b ^^^ q.c ^^^ q.d, 0x6ed9eba1)
    else if i < 60 then ((q.b &&& q.c) ||| (q.b &&& q.d) ||| (q.c &&& q.d), 0x8f1bbcdc)
    else (q.b ^^^ q.c ^^^ q.d, 0xca62c1d6)
  ⟨⟨rotateLeft q.a 5 + f + s.e + k + word, q.a, rotateLeft q.b 30, q.c⟩, q.d⟩

/-- Extend a schedule, newest word first, by `count` words. -/
def extend : Nat → List UInt32 → List UInt32
  | 0, ws => ws
  | count + 1, ws =>
      let mixed := ws.getD 2 0 ^^^ ws.getD 7 0 ^^^ ws.getD 13 0 ^^^ ws.getD 15 0
      extend count (rotateLeft mixed 1 :: ws)

def compress (s : State) (block : List UInt32) : State :=
  let schedule := (extend 64 block.reverse).reverse
  let t := schedule.zipIdx.foldl (fun t (word, i) => round t i word) s
  let p := s.quad
  let q := t.quad
  ⟨⟨p.a + q.a, p.b + q.b, p.c + q.c, p.d + q.d⟩, s.e + t.e⟩

def blocks : Nat → State → List UInt32 → State
  | 0, s, _ => s
  | count + 1, s, ws =>
      if ws.isEmpty then s else blocks count (compress s (ws.take 16)) (ws.drop 16)

def first : State := ⟨⟨0x67452301, 0xefcdab89, 0x98badcfe, 0x10325476⟩, 0xc3d2e1f0⟩

def digest (message : Bytes) : Bytes :=
  let ws := Sha256.wordsOf (Sha256.pad message)
  let s := blocks (ws.length / 16) first ws
  [s.quad.a, s.quad.b, s.quad.c, s.quad.d, s.e].flatMap fun w => Sha256.bigEndian 4 w.toNat

end Sha1

/-- The remainder after one more bit, the highest first. -/
def crcBit (crc : UInt32) : UInt32 :=
  if crc >>> 31 = 1 then (crc <<< 1) ^^^ 0x04c11db7 else crc <<< 1

def crcByte (crc : UInt32) (b : UInt8) : UInt32 :=
  Nat.repeat crcBit 8 (crc ^^^ (b.toUInt32 <<< 24))

/-- The bytes of a length, lowest first, without zeros at the end. -/
def lengthBytes : Nat → Nat → Bytes
  | 0, _ => []
  | fuel + 1, n => if n = 0 then [] else UInt8.ofNat (n % 256) :: lengthBytes fuel (n / 256)

/-- The cyclic redundancy check of a byte string and its length. -/
def crc (message : Bytes) : UInt32 :=
  ~~~((message ++ lengthBytes 8 message.length).foldl crcByte 0)

def md5 (message : Bytes) : String := String.ofList (hex (Md5.digest message))

def sha1 (message : Bytes) : String := String.ofList (hex (Sha1.digest message))

end Text
end BitEquiv
