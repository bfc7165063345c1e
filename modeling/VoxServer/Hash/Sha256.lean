import Mathlib.Algebra.Ring.Nat
import Mathlib.Data.List.Basic
import Mathlib.Data.Nat.NthRoot.Defs
import VoxServer.Hash.Blocks

/-! # SHA-256 and HMAC

The hash function of FIPS 180-4 in its own terms: words of 32 bits, the message schedule
as a recurrence, and a padded message of whole blocks. HMAC is stated for any hash
function, as in FIPS 198-1.
-/

namespace VoxServer.Hash

/-- The bytes of a number, the highest first; what does not fit into `n` bytes is cut off. -/
def bigEndian (n v : ℕ) : List UInt8 :=
  (List.range n).map fun i => UInt8.ofNat (v / 256 ^ (n - 1 - i))

@[simp] theorem length_bigEndian (n v : ℕ) : (bigEndian n v).length = n := by
  simp [bigEndian]

namespace Sha256

structure State (W : Type) where
  a : W
  b : W
  c : W
  d : W
  e : W
  f : W
  g : W
  h : W
  deriving DecidableEq, Repr

namespace State

variable {W V : Type}

def toList (s : State W) : List W := [s.a, s.b, s.c, s.d, s.e, s.f, s.g, s.h]

def map (ι : W → V) (s : State W) : State V :=
  ⟨ι s.a, ι s.b, ι s.c, ι s.d, ι s.e, ι s.f, ι s.g, ι s.h⟩

def zipWith (op : W → W → W) (s t : State W) : State W :=
  ⟨op s.a t.a, op s.b t.b, op s.c t.c, op s.d t.d, op s.e t.e, op s.f t.f, op s.g t.g, op s.h t.h⟩

end State

abbrev Word := BitVec 32

def ch (x y z : Word) : Word := (x &&& y) ^^^ (~~~x &&& z)

def maj (x y z : Word) : Word := (x &&& y) ^^^ (x &&& z) ^^^ (y &&& z)

def bigSigma0 (x : Word) : Word := x.rotateRight 2 ^^^ x.rotateRight 13 ^^^ x.rotateRight 22

def bigSigma1 (x : Word) : Word := x.rotateRight 6 ^^^ x.rotateRight 11 ^^^ x.rotateRight 25

def smallSigma0 (x : Word) : Word := x.rotateRight 7 ^^^ x.rotateRight 18 ^^^ x >>> 3

def smallSigma1 (x : Word) : Word := x.rotateRight 17 ^^^ x.rotateRight 19 ^^^ x >>> 10

/-- The first 32 bits behind the point of the `n`-th root of a number. -/
def rootFraction (n p : ℕ) : Word := BitVec.ofNat 32 (Nat.nthRoot n (p * 2 ^ (32 * n)))

def primes : List ℕ :=
  [2, 3, 5, 7, 11, 13, 17, 19, 23, 29, 31, 37, 41, 43, 47, 53, 59, 61, 67, 71, 73, 79, 83, 89, 97,
    101, 103, 107, 109, 113, 127, 131, 137, 139, 149, 151, 157, 163, 167, 173, 179, 181, 191, 193,
    197, 199, 211, 223, 227, 229, 233, 239, 241, 251, 257, 263, 269, 271, 277, 281, 283, 293, 307,
    311]

/-- The constants of the rounds, from cube roots. -/
def constants : List Word := primes.map (rootFraction 3)

/-- The initial hash value, from the square roots of the first eight primes. -/
def initial : State Word :=
  ⟨rootFraction 2 2, rootFraction 2 3, rootFraction 2 5, rootFraction 2 7, rootFraction 2 11,
    rootFraction 2 13, rootFraction 2 17, rootFraction 2 19⟩

def wordAt (block : List UInt8) (t : ℕ) : Word :=
  (block.getD (4 * t) 0).toBitVec ++ (block.getD (4 * t + 1) 0).toBitVec ++
    (block.getD (4 * t + 2) 0).toBitVec ++ (block.getD (4 * t + 3) 0).toBitVec

def schedule (block : List UInt8) (t : ℕ) : Word :=
  if t < 16 then wordAt block t else
    smallSigma1 (schedule block (t - 2)) + schedule block (t - 7) +
      smallSigma0 (schedule block (t - 15)) + schedule block (t - 16)

def round (k w : Word) (s : State Word) : State Word :=
  let t₁ := s.h + bigSigma1 s.e + ch s.e s.f s.g + k + w
  let t₂ := bigSigma0 s.a + maj s.a s.b s.c
  ⟨t₁ + t₂, s.a, s.b, s.c, s.d + t₁, s.e, s.f, s.g⟩

def rounds (block : List UInt8) (s : State Word) : ℕ → State Word
  | 0 => s
  | t + 1 => round (constants.getD t 0) (schedule block t) (rounds block s t)

def compression : Compression (State Word) UInt8 where
  size := 64
  size_pos := by decide
  compress s block := s.zipWith (· + ·) (rounds block s 64)

/-- The message with a bit, zeros and its length in bits, up to whole blocks. -/
def pad (message : List UInt8) : List UInt8 :=
  message ++ 0x80 :: List.replicate ((119 - message.length % 64) % 64) 0 ++
    bigEndian 8 (8 * message.length)

def sha256 (message : List UInt8) : List UInt8 :=
  (compression.hash initial (pad message)).toList.flatMap fun w => bigEndian 4 w.toNat

end Sha256

def hmac (hash : List UInt8 → List UInt8) (size : ℕ) (key message : List UInt8) : List UInt8 :=
  let short := if size < key.length then hash key else key
  let padded := short ++ List.replicate (size - short.length) 0
  hash (padded.map (· ^^^ 0x5c) ++ hash (padded.map (· ^^^ 0x36) ++ message))

end VoxServer.Hash
