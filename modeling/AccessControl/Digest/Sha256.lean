import AccessControl.Text.Octets

/-! # SHA-256

The hash on octets: padding to blocks of 64, a schedule of 64 words for each block, and a
compression that mixes the schedule into eight words of state.
-/
namespace AccessControl.Sha256
open AccessControl.Text (Octets)

abbrev Word := UInt32

def blockSize : Nat := 64

structure State where
  a : Word
  b : Word
  c : Word
  d : Word
  e : Word
  f : Word
  g : Word
  h : Word

def start : State :=
  ⟨0x6a09e667, 0xbb67ae85, 0x3c6ef372, 0xa54ff53a, 0x510e527f, 0x9b05688c, 0x1f83d9ab, 0x5be0cd19⟩

def roundConstants : List Word :=
  [0x428a2f98, 0x71374491, 0xb5c0fbcf, 0xe9b5dba5, 0x3956c25b, 0x59f111f1, 0x923f82a4, 0xab1c5ed5,
   0xd807aa98, 0x12835b01, 0x243185be, 0x550c7dc3, 0x72be5d74, 0x80deb1fe, 0x9bdc06a7, 0xc19bf174,
   0xe49b69c1, 0xefbe4786, 0x0fc19dc6, 0x240ca1cc, 0x2de92c6f, 0x4a7484aa, 0x5cb0a9dc, 0x76f988da,
   0x983e5152, 0xa831c66d, 0xb00327c8, 0xbf597fc7, 0xc6e00bf3, 0xd5a79147, 0x06ca6351, 0x14292967,
   0x27b70a85, 0x2e1b2138, 0x4d2c6dfc, 0x53380d13, 0x650a7354, 0x766a0abb, 0x81c2c92e, 0x92722c85,
   0xa2bfe8a1, 0xa81a664b, 0xc24b8b70, 0xc76c51a3, 0xd192e819, 0xd6990624, 0xf40e3585, 0x106aa070,
   0x19a4c116, 0x1e376c08, 0x2748774c, 0x34b0bcb5, 0x391c0cb3, 0x4ed8aa4a, 0x5b9cca4f, 0x682e6ff3,
   0x748f82ee, 0x78a5636f, 0x84c87814, 0x8cc70208, 0x90befffa, 0xa4506ceb, 0xbef9a3f7, 0xc67178f2]

def rotate (x : Word) (n : Word) : Word := (x >>> n) ||| (x <<< (32 - n))

def choose (x y z : Word) : Word := (x &&& y) ^^^ ((~~~ x) &&& z)

def majority (x y z : Word) : Word := (x &&& y) ^^^ (x &&& z) ^^^ (y &&& z)

def mixA (x : Word) : Word := rotate x 2 ^^^ rotate x 13 ^^^ rotate x 22

def mixE (x : Word) : Word := rotate x 6 ^^^ rotate x 11 ^^^ rotate x 25

def spread0 (x : Word) : Word := rotate x 7 ^^^ rotate x 18 ^^^ (x >>> 3)

def spread1 (x : Word) : Word := rotate x 17 ^^^ rotate x 19 ^^^ (x >>> 10)

def bigEndian (width n : Nat) : Octets :=
  (List.range width).map fun i => UInt8.ofNat (n / Nat.pow 256 (width - 1 - i))

def wordOf (a b c d : UInt8) : Word :=
  (a.toUInt32 <<< 24) ||| (b.toUInt32 <<< 16) ||| (c.toUInt32 <<< 8) ||| d.toUInt32

def words : Octets → List Word
  | a :: b :: c :: d :: rest => wordOf a b c d :: words rest
  | _ => []

/-- The message, a set bit, zeros, and the length in bits in the last eight octets. -/
def pad (message : Octets) : Octets :=
  let zeros := (119 - message.length % 64) % 64
  message ++ 0x80 :: List.replicate zeros 0 ++ bigEndian 8 (message.length * 8)

def nextWord (w : Array Word) (t : Nat) : Word :=
  spread1 (w.getD (t - 2) 0) + w.getD (t - 7) 0 + spread0 (w.getD (t - 15) 0) + w.getD (t - 16) 0

def schedule (block : List Word) : List Word :=
  ((List.range 48).foldl (fun w i => w.push (nextWord w (i + 16))) block.toArray).toList

def round (s : State) (kw : Word × Word) : State :=
  let t1 := s.h + mixE s.e + choose s.e s.f s.g + kw.1 + kw.2
  let t2 := mixA s.a + majority s.a s.b s.c
  ⟨t1 + t2, s.a, s.b, s.c, s.d + t1, s.e, s.f, s.g⟩

def compress (s : State) (block : List Word) : State :=
  let r := (roundConstants.zip (schedule block)).foldl round s
  ⟨s.a + r.a, s.b + r.b, s.c + r.c, s.d + r.d, s.e + r.e, s.f + r.f, s.g + r.g, s.h + r.h⟩

def compressAll : Nat → State → List Word → State
  | 0, s, _ => s
  | count + 1, s, ws => compressAll count (compress s (ws.take 16)) (ws.drop 16)

def State.octets (s : State) : Octets :=
  [s.a, s.b, s.c, s.d, s.e, s.f, s.g, s.h].flatMap fun w => bigEndian 4 w.toNat

def hash (message : Octets) : Octets :=
  let ws := words (pad message)
  (compressAll (ws.length / 16) start ws).octets

end AccessControl.Sha256
