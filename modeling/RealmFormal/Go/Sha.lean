import RealmFormal.Go.Bytes

/-!
# SHA-1 and SHA-256

The two digests of the Go standard library that the modelled code calls. Proofs
use only the digest lengths; nothing is assumed about collisions here.
-/

namespace Go.Sha
set_option autoImplicit false

def be32 (w : UInt32) : Bytes :=
  [(w >>> 24).toUInt8, (w >>> 16).toUInt8, (w >>> 8).toUInt8, w.toUInt8]

/-- The message with its padding and its length in bits, a multiple of 64 bytes. -/
def pad (m : Bytes) : Bytes :=
  m ++ 0x80 :: List.replicate ((119 - m.length % 64) % 64) 0 ++
    (be32 (UInt32.ofNat (m.length * 8 / 2 ^ 32)) ++ be32 (UInt32.ofNat (m.length * 8)))

def words : Bytes → List UInt32
  | a :: b :: c :: d :: t =>
    (a.toUInt32 <<< 24 ||| b.toUInt32 <<< 16 ||| c.toUInt32 <<< 8 ||| d.toUInt32) :: words t
  | _ => []

/-- Consecutive groups of sixteen words. -/
def blocks : Nat → List UInt32 → List (List UInt32)
  | 0, _ => []
  | n + 1, ws => ws.take 16 :: blocks n (ws.drop 16)

def messageBlocks (m : Bytes) : List (List UInt32) :=
  blocks ((pad m).length / 64) (words (pad m))

def rotl (w n : UInt32) : UInt32 := w <<< n ||| w >>> (32 - n)

def rotr (w n : UInt32) : UInt32 := w >>> n ||| w <<< (32 - n)

/-- The message schedule, from a window of the next sixteen words. -/
def schedule (next : List UInt32 → UInt32) : Nat → List UInt32 → List UInt32
  | 0, _ => []
  | _, [] => []
  | n + 1, w :: ws => w :: schedule next n (ws ++ [next (w :: ws)])

structure State256 where
  a : UInt32
  b : UInt32
  c : UInt32
  d : UInt32
  e : UInt32
  f : UInt32
  g : UInt32
  h : UInt32

def State256.add (s t : State256) : State256 :=
  ⟨s.a + t.a, s.b + t.b, s.c + t.c, s.d + t.d, s.e + t.e, s.f + t.f, s.g + t.g, s.h + t.h⟩

def State256.bytes (s : State256) : Bytes :=
  be32 s.a ++ be32 s.b ++ be32 s.c ++ be32 s.d ++ be32 s.e ++ be32 s.f ++ be32 s.g ++ be32 s.h

def constants256 : List UInt32 :=
  [0x428a2f98, 0x71374491, 0xb5c0fbcf, 0xe9b5dba5, 0x3956c25b, 0x59f111f1, 0x923f82a4, 0xab1c5ed5,
    0xd807aa98, 0x12835b01, 0x243185be, 0x550c7dc3, 0x72be5d74, 0x80deb1fe, 0x9bdc06a7, 0xc19bf174,
    0xe49b69c1, 0xefbe4786, 0x0fc19dc6, 0x240ca1cc, 0x2de92c6f, 0x4a7484aa, 0x5cb0a9dc, 0x76f988da,
    0x983e5152, 0xa831c66d, 0xb00327c8, 0xbf597fc7, 0xc6e00bf3, 0xd5a79147, 0x06ca6351, 0x14292967,
    0x27b70a85, 0x2e1b2138, 0x4d2c6dfc, 0x53380d13, 0x650a7354, 0x766a0abb, 0x81c2c92e, 0x92722c85,
    0xa2bfe8a1, 0xa81a664b, 0xc24b8b70, 0xc76c51a3, 0xd192e819, 0xd6990624, 0xf40e3585, 0x106aa070,
    0x19a4c116, 0x1e376c08, 0x2748774c, 0x34b0bcb5, 0x391c0cb3, 0x4ed8aa4a, 0x5b9cca4f, 0x682e6ff3,
    0x748f82ee, 0x78a5636f, 0x84c87814, 0x8cc70208, 0x90befffa, 0xa4506ceb, 0xbef9a3f7, 0xc67178f2]

def next256 (w : List UInt32) : UInt32 :=
  let s0 := w.getD 1 0
  let s1 := w.getD 14 0
  w.getD 0 0 + (rotr s0 7 ^^^ rotr s0 18 ^^^ s0 >>> 3) + w.getD 9 0 +
    (rotr s1 17 ^^^ rotr s1 19 ^^^ s1 >>> 10)

def round256 (s : State256) (kw : UInt32 × UInt32) : State256 :=
  let t1 := s.h + (rotr s.e 6 ^^^ rotr s.e 11 ^^^ rotr s.e 25) +
    (s.e &&& s.f ^^^ (s.e ^^^ 0xffffffff) &&& s.g) + kw.1 + kw.2
  let t2 := (rotr s.a 2 ^^^ rotr s.a 13 ^^^ rotr s.a 22) +
    (s.a &&& s.b ^^^ s.a &&& s.c ^^^ s.b &&& s.c)
  ⟨t1 + t2, s.a, s.b, s.c, s.d + t1, s.e, s.f, s.g⟩

def compress256 (s : State256) (block : List UInt32) : State256 :=
  s.add ((constants256.zip (schedule next256 64 block)).foldl round256 s)

def initial256 : State256 :=
  ⟨0x6a09e667, 0xbb67ae85, 0x3c6ef372, 0xa54ff53a, 0x510e527f, 0x9b05688c, 0x1f83d9ab, 0x5be0cd19⟩

/-- `sha256.Sum256`. -/
def sum256 (m : Bytes) : Bytes := ((messageBlocks m).foldl compress256 initial256).bytes

theorem sum256_length (m : Bytes) : (sum256 m).length = 32 := rfl

structure State1 where
  a : UInt32
  b : UInt32
  c : UInt32
  d : UInt32
  e : UInt32

def State1.add (s t : State1) : State1 :=
  ⟨s.a + t.a, s.b + t.b, s.c + t.c, s.d + t.d, s.e + t.e⟩

def State1.bytes (s : State1) : Bytes :=
  be32 s.a ++ be32 s.b ++ be32 s.c ++ be32 s.d ++ be32 s.e

def next1 (w : List UInt32) : UInt32 :=
  rotl (w.getD 13 0 ^^^ w.getD 8 0 ^^^ w.getD 2 0 ^^^ w.getD 0 0) 1

def mix1 (i : Nat) (b c d : UInt32) : UInt32 :=
  if i < 20 then (b &&& c ||| (b ^^^ 0xffffffff) &&& d) + 0x5a827999
  else if i < 40 then (b ^^^ c ^^^ d) + 0x6ed9eba1
  else if i < 60 then (b &&& c ||| b &&& d ||| c &&& d) + 0x8f1bbcdc
  else (b ^^^ c ^^^ d) + 0xca62c1d6

def round1 (s : State1) (iw : Nat × UInt32) : State1 :=
  ⟨rotl s.a 5 + mix1 iw.1 s.b s.c s.d + s.e + iw.2, s.a, rotl s.b 30, s.c, s.d⟩

def compress1 (s : State1) (block : List UInt32) : State1 :=
  s.add (((List.range 80).zip (schedule next1 80 block)).foldl round1 s)

def initial1 : State1 := ⟨0x67452301, 0xefcdab89, 0x98badcfe, 0x10325476, 0xc3d2e1f0⟩

/-- `sha1.Sum`. -/
def sum1 (m : Bytes) : Bytes := ((messageBlocks m).foldl compress1 initial1).bytes

theorem sum1_length (m : Bytes) : (sum1 m).length = 20 := rfl

end Go.Sha
