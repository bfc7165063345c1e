import Mathlib.Data.List.GetD
import Mathlib.Data.Nat.Digits.Lemmas
import VoxServer.Hash.Sha256

/-! # The SHA-256 of the server

`picosha2` computes SHA-256 with words of 64 bits that are masked to 32, counts the length
of the message in four digits of 16 bits, and takes the message in parts. Its hash value
is that of the standard, for every message and however it is cut into parts.
-/

namespace VoxServer.PicoSha2

open Hash

/-- `word_t`, an `unsigned long`. -/
abbrev Word := BitVec 64

def kDigestSize : ℕ := 32

section Words

/-- `static_cast<byte_t>`. -/
def toByte (x : Word) : UInt8 := UInt8.ofBitVec (x.setWidth 8)

def mask8bit (x : UInt8) : UInt8 := x &&& 0xff

def mask32bit (x : Word) : Word := x &&& 0xffffffff

def addConstant : List Word :=
  [0x428a2f98, 0x71374491, 0xb5c0fbcf, 0xe9b5dba5, 0x3956c25b, 0x59f111f1, 0x923f82a4, 0xab1c5ed5,
    0xd807aa98, 0x12835b01, 0x243185be, 0x550c7dc3, 0x72be5d74, 0x80deb1fe, 0x9bdc06a7, 0xc19bf174,
    0xe49b69c1, 0xefbe4786, 0x0fc19dc6, 0x240ca1cc, 0x2de92c6f, 0x4a7484aa, 0x5cb0a9dc, 0x76f988da,
    0x983e5152, 0xa831c66d, 0xb00327c8, 0xbf597fc7, 0xc6e00bf3, 0xd5a79147, 0x06ca6351, 0x14292967,
    0x27b70a85, 0x2e1b2138, 0x4d2c6dfc, 0x53380d13, 0x650a7354, 0x766a0abb, 0x81c2c92e, 0x92722c85,
    0xa2bfe8a1, 0xa81a664b, 0xc24b8b70, 0xc76c51a3, 0xd192e819, 0xd6990624, 0xf40e3585, 0x106aa070,
    0x19a4c116, 0x1e376c08, 0x2748774c, 0x34b0bcb5, 0x391c0cb3, 0x4ed8aa4a, 0x5b9cca4f, 0x682e6ff3,
    0x748f82ee, 0x78a5636f, 0x84c87814, 0x8cc70208, 0x90befffa, 0xa4506ceb, 0xbef9a3f7, 0xc67178f2]

/-- The array `h_`, as a record of its eight words. -/
abbrev Digest := Sha256.State Word

def initialMessageDigest : Digest :=
  ⟨0x6a09e667, 0xbb67ae85, 0x3c6ef372, 0xa54ff53a, 0x510e527f, 0x9b05688c, 0x1f83d9ab, 0x5be0cd19⟩

def ch (x y z : Word) : Word := (x &&& y) ^^^ (~~~x &&& z)

def maj (x y z : Word) : Word := (x &&& y) ^^^ (x &&& z) ^^^ (y &&& z)

def rotr (x : Word) (n : ℕ) : Word := mask32bit (x >>> n ||| x <<< (32 - n))

def bsig0 (x : Word) : Word := rotr x 2 ^^^ rotr x 13 ^^^ rotr x 22

def bsig1 (x : Word) : Word := rotr x 6 ^^^ rotr x 11 ^^^ rotr x 25

def shr (x : Word) (n : ℕ) : Word := x >>> n

def ssig0 (x : Word) : Word := rotr x 7 ^^^ rotr x 18 ^^^ shr x 3

def ssig1 (x : Word) : Word := rotr x 17 ^^^ rotr x 19 ^^^ shr x 10

end Words

section Block

def byteAt (block : List UInt8) (i : ℕ) : Word := (mask8bit (block.getD i 0)).toBitVec.setWidth 64

/-- The words of the block, in the array `w` of 64 words. -/
def loadWords (block : List UInt8) : List Word :=
  (List.range 16).foldl (fun w i => w.set i
    (byteAt block (i * 4) <<< 24 ||| byteAt block (i * 4 + 1) <<< 16 |||
      byteAt block (i * 4 + 2) <<< 8 ||| byteAt block (i * 4 + 3))) (List.replicate 64 0)

/-- An assignment of the second loop over `w`. -/
def extendWord (w : List Word) (i : ℕ) : List Word :=
  w.set i (mask32bit
    (ssig1 (w.getD (i - 2) 0) + w.getD (i - 7) 0 + ssig0 (w.getD (i - 15) 0) + w.getD (i - 16) 0))

def schedule (block : List UInt8) : List Word :=
  (List.range' 16 48).foldl extendWord (loadWords block)

def round (w : List Word) (s : Digest) (i : ℕ) : Digest :=
  let temp1 := s.h + bsig1 s.e + ch s.e s.f s.g + addConstant.getD i 0 + w.getD i 0
  let temp2 := bsig0 s.a + maj s.a s.b s.c
  { h := s.g
    g := s.f
    f := s.e
    e := mask32bit (s.d + temp1)
    d := s.c
    c := s.b
    b := s.a
    a := mask32bit (temp1 + temp2) }

def hash256Block (messageDigest : Digest) (block : List UInt8) : Digest :=
  (messageDigest.zipWith (· + ·)
    ((List.range 64).foldl (round (schedule block)) messageDigest)).map mask32bit

end Block

/-- `hash256_one_by_one`. -/
structure Hash256OneByOne where
  buffer : List UInt8 := []
  /-- The length of the message, in digits of 16 bits, the lowest first. -/
  dataLengthDigits : List Word := [0, 0, 0, 0]
  h : Digest := initialMessageDigest
  deriving DecidableEq, Repr

namespace Hash256OneByOne

/-- The loop of `add_to_data_length`, which stops at a digit that does not overflow. -/
def addCarry (carry : Word) : List Word → List Word
  | [] => []
  | digit :: digits =>
    let digit := digit + carry
    if 65536 ≤ digit then (digit &&& 65535) :: addCarry (digit >>> 16) digits else digit :: digits

def addToDataLength (n : Word) : List Word → List Word
  | [] => []
  | digit :: digits => addCarry 0 ((digit + n) :: digits)

/-- The loop of `process`, from the position `i`. -/
def processBlocks (buffer : List UInt8) : (fuel i : ℕ) → Digest → Digest × ℕ
  | 0, i, h => (h, i)
  | fuel + 1, i, h =>
    if i + 64 ≤ buffer.length then
      processBlocks buffer fuel (i + 64) (hash256Block h ((buffer.drop i).take 64))
    else (h, i)

def process (data : List UInt8) (s : Hash256OneByOne) : Hash256OneByOne :=
  let dataLengthDigits := addToDataLength (BitVec.ofNat 64 data.length) s.dataLengthDigits
  let buffer := s.buffer ++ data
  -- The position grows with every round, so there are fewer rounds than bytes.
  let (h, i) := processBlocks buffer buffer.length 0 s.h
  { buffer := buffer.drop i, dataLengthDigits, h }

/-- The loop of `write_data_bit_length` that multiplies by eight. -/
def bitLengthDigits (carry : Word) : List Word → List Word
  | [] => []
  | digit :: digits =>
    ((digit <<< 3 ||| carry) &&& 65535) :: bitLengthDigits ((digit >>> 13) &&& 65535) digits

def writeDataBitLength (dataLengthDigits : List Word) : List UInt8 :=
  (bitLengthDigits 0 dataLengthDigits).reverse.flatMap fun digit : Word =>
    [toByte (digit >>> 8), toByte digit]

/-- `std::fill` from one position to another. -/
def fill (temp : List UInt8) (first last : ℕ) (value : UInt8) : List UInt8 :=
  temp.take first ++ List.replicate (last - first) value ++ temp.drop last

def finish (s : Hash256OneByOne) : Hash256OneByOne :=
  let temp := s.buffer ++ List.replicate (64 - s.buffer.length) 0
  let remains := if 64 ≤ s.buffer.length then 63 else s.buffer.length
  let temp := temp.set remains 0x80
  let (temp, h) :=
    if 55 < remains then
      let temp := fill temp (remains + 1) 64 0
      (fill temp 0 (64 - 4) 0, hash256Block s.h temp)
    else (fill temp (remains + 1) (64 - 4) 0, s.h)
  let temp := temp.take 56 ++ writeDataBitLength s.dataLengthDigits
  { s with h := hash256Block h temp }

/-- `get_hash_bytes` into a range of the given size. -/
def getHashBytes (size : ℕ) (s : Hash256OneByOne) : List UInt8 :=
  (s.h.toList.flatMap fun word : Word => (List.range 4).map fun i =>
    mask8bit (toByte (word >>> (24 - 8 * i)))).take size

end Hash256OneByOne

open Hash256OneByOne

/-- `hash256` of a range that can be walked at random, in a buffer of the digest's size. -/
def hash256 (data : List UInt8) : List UInt8 :=
  getHashBytes kDigestSize (finish (process data {}))

example : hash256 [0x61, 0x62, 0x63] =
    [0xba, 0x78, 0x16, 0xbf, 0x8f, 0x01, 0xcf, 0xea, 0x41, 0x41, 0x40, 0xde, 0x5d, 0xae, 0x22, 0x23,
      0xb0, 0x03, 0x61, 0xa3, 0x96, 0x17, 0x7a, 0x9c, 0xb4, 0x10, 0xff, 0x61, 0xf2, 0x00, 0x15,
      0xad] := by
  decide +kernel

/-! ## Words

A word of the standard is a word of the code whose upper half is zero. -/

section Words

def wide (x : Sha256.Word) : Word := x.setWidth 64

variable (x y z : Sha256.Word)

@[simp] theorem setWidth_wide : (wide x).setWidth 32 = x := by
  simp [wide]

theorem mask32bit_eq (x : Word) : mask32bit x = wide (x.setWidth 32) := by
  apply BitVec.eq_of_toNat_eq
  have hmask : (0xffffffff : Word).toNat = 2 ^ 32 - 1 := rfl
  simp only [mask32bit, wide, BitVec.toNat_and, BitVec.toNat_setWidth, hmask,
    Nat.and_two_pow_sub_one_eq_mod]
  omega

theorem wide_xor : wide (x ^^^ y) = wide x ^^^ wide y := BitVec.setWidth_xor

theorem wide_and : wide (x &&& y) = wide x &&& wide y := BitVec.setWidth_and

theorem mask32bit_wide_add : mask32bit (wide x + wide y) = wide (x + y) := by
  rw [mask32bit_eq, BitVec.setWidth_add _ _ (by decide), setWidth_wide, setWidth_wide]

theorem ch_wide : ch (wide x) (wide y) (wide z) = wide (Sha256.ch x y z) := by
  apply BitVec.eq_of_getLsbD_eq
  intro i hi
  by_cases h : i < 32
  · simp [ch, Sha256.ch, wide, h, hi]
  · simp [ch, Sha256.ch, wide, BitVec.getLsbD_of_ge _ _ (not_lt.mp h)]

theorem maj_wide : maj (wide x) (wide y) (wide z) = wide (Sha256.maj x y z) := by
  simp only [maj, Sha256.maj, wide_xor, wide_and]

theorem rotr_wide {n : ℕ} (hn : n < 32) : rotr (wide x) n = wide (x.rotateRight n) := by
  rw [rotr, mask32bit_eq]
  refine congrArg wide (BitVec.eq_of_getLsbD_eq fun i hi => ?_)
  simp only [BitVec.getLsbD_rotateRight, Nat.mod_eq_of_lt hn, wide, BitVec.getLsbD_setWidth,
    BitVec.getLsbD_or, BitVec.getLsbD_ushiftRight, BitVec.getLsbD_shiftLeft]
  by_cases h : i < 32 - n
  · simp [h, hi, show n + i < 64 by omega]
  · have hout : 32 ≤ n + i := by omega
    simp [h, hi, BitVec.getLsbD_of_ge _ _ hout, show i < 64 by omega,
      show i - (32 - n) < 64 by omega]

theorem shr_wide (n : ℕ) : shr (wide x) n = wide (x >>> n) := by
  apply BitVec.eq_of_getLsbD_eq
  intro i hi
  by_cases h : n + i < 64
  · simp [shr, wide, h, hi]
  · simp [shr, wide, BitVec.getLsbD_of_ge _ _ (show 32 ≤ n + i by omega)]

theorem bsig0_wide : bsig0 (wide x) = wide (Sha256.bigSigma0 x) := by
  simp [bsig0, Sha256.bigSigma0, wide_xor, rotr_wide]

theorem bsig1_wide : bsig1 (wide x) = wide (Sha256.bigSigma1 x) := by
  simp [bsig1, Sha256.bigSigma1, wide_xor, rotr_wide]

theorem ssig0_wide : ssig0 (wide x) = wide (Sha256.smallSigma0 x) := by
  simp [ssig0, Sha256.smallSigma0, wide_xor, rotr_wide, shr_wide]

theorem ssig1_wide : ssig1 (wide x) = wide (Sha256.smallSigma1 x) := by
  simp [ssig1, Sha256.smallSigma1, wide_xor, rotr_wide, shr_wide]

theorem addConstant_eq : addConstant = Sha256.constants.map wide := by
  decide +kernel

theorem addConstant_getD (i : ℕ) : addConstant.getD i 0 = wide (Sha256.constants.getD i 0) := by
  rw [addConstant_eq]
  exact List.getD_map _ 0 wide

theorem initialMessageDigest_eq : initialMessageDigest = Sha256.initial.map wide := by
  decide +kernel

end Words

/-! ## Blocks

The array `w` is filled from the left, so below the index of a loop it holds the schedule
of the standard. -/

section Blocks

variable (block : List UInt8)

theorem foldl_set (f : ℕ → Word) (w : List Word) {n : ℕ} (hn : n ≤ w.length) :
    ((List.range n).foldl (fun w i => w.set i (f i)) w).length = w.length ∧
    ∀ t < n, ((List.range n).foldl (fun w i => w.set i (f i)) w).getD t 0 = f t := by
  induction n with
  | zero => exact ⟨rfl, fun t ht => absurd ht (Nat.not_lt_zero t)⟩
  | succ n ih =>
    obtain ⟨hlen, hget⟩ := ih (Nat.le_of_succ_le hn)
    simp only [List.range_succ, List.foldl_append, List.foldl_cons, List.foldl_nil]
    refine ⟨by rw [List.length_set, hlen], fun t ht => ?_⟩
    by_cases hlast : t = n
    · subst hlast
      simp [List.getD_eq_getElem?_getD, List.getElem?_set_self (hlen ▸ hn)]
    · rw [List.getD_eq_getElem?_getD, List.getElem?_set_ne (Ne.symm hlast),
        ← List.getD_eq_getElem?_getD]
      exact hget t (by omega)

theorem mask8bit_eq (b : UInt8) : mask8bit b = b := by
  apply UInt8.toBitVec_inj.mp
  exact BitVec.and_allOnes

theorem byteAt_eq (i : ℕ) : byteAt block i = (block.getD i 0).toBitVec.setWidth 64 := by
  rw [byteAt, mask8bit_eq]

theorem wide_append (b₀ b₁ b₂ b₃ : BitVec 8) :
    b₀.setWidth 64 <<< 24 ||| b₁.setWidth 64 <<< 16 ||| b₂.setWidth 64 <<< 8 ||| b₃.setWidth 64 =
      wide (b₀ ++ b₁ ++ b₂ ++ b₃) := by
  apply BitVec.eq_of_getLsbD_eq
  intro i hi
  simp only [wide, BitVec.getLsbD_or, BitVec.getLsbD_shiftLeft, BitVec.getLsbD_setWidth,
    BitVec.getLsbD_append]
  grind

theorem loadWords_spec : (loadWords block).length = 64 ∧
    ∀ t < 16, (loadWords block).getD t 0 = wide (Sha256.schedule block t) := by
  obtain ⟨hlen, hget⟩ := foldl_set (n := 16) (fun i =>
    byteAt block (i * 4) <<< 24 ||| byteAt block (i * 4 + 1) <<< 16 |||
      byteAt block (i * 4 + 2) <<< 8 ||| byteAt block (i * 4 + 3)) (List.replicate 64 0)
    (by rw [List.length_replicate]; decide)
  refine ⟨hlen.trans List.length_replicate, fun t ht => (hget t ht).trans ?_⟩
  rw [Sha256.schedule, if_pos ht, Sha256.wordAt, Nat.mul_comm t 4]
  simp only [byteAt_eq]
  exact wide_append _ _ _ _

theorem extendWord_eq {w : List Word} {t : ℕ} (ht : 16 ≤ t)
    (hw : ∀ t' < t, w.getD t' 0 = wide (Sha256.schedule block t')) :
    extendWord w t = w.set t (wide (Sha256.schedule block t)) := by
  rw [extendWord, hw _ (by omega), hw _ (by omega), hw _ (by omega), hw _ (by omega), ssig0_wide,
    ssig1_wide, mask32bit_eq, Sha256.schedule.eq_def block t, if_neg (by omega)]
  simp only [BitVec.setWidth_add _ _ (show 32 ≤ 64 by decide), setWidth_wide]

theorem schedule_spec : (schedule block).length = 64 ∧
    ∀ t < 64, (schedule block).getD t 0 = wide (Sha256.schedule block t) := by
  -- The words below the index are those of the standard, and the loop appends the next one.
  have hloop : ∀ n ≤ 48, ((List.range' 16 n).foldl extendWord (loadWords block)).length = 64 ∧
      ∀ t < 16 + n, ((List.range' 16 n).foldl extendWord (loadWords block)).getD t 0 =
        wide (Sha256.schedule block t) := by
    intro n hn
    induction n with
    | zero =>
      rw [List.range'_zero, List.foldl_nil]
      exact loadWords_spec block
    | succ n ih =>
      obtain ⟨hlen, hget⟩ := ih (Nat.le_of_succ_le hn)
      simp only [List.range'_concat, List.foldl_append, List.foldl_cons, List.foldl_nil,
        Nat.one_mul]
      rw [extendWord_eq block (by omega) hget]
      refine ⟨by rw [List.length_set, hlen], fun t ht => ?_⟩
      by_cases hlast : t = 16 + n
      · subst hlast
        rw [List.getD_eq_getElem?_getD, List.getElem?_set_self (by omega), Option.getD_some]
      · rw [List.getD_eq_getElem?_getD, List.getElem?_set_ne (Ne.symm hlast),
          ← List.getD_eq_getElem?_getD]
        exact hget t (by omega)
  exact hloop 48 (le_refl 48)

variable {block}

theorem round_wide {w : List Word} {i : ℕ} (s : Sha256.State Sha256.Word)
    (hw : w.getD i 0 = wide (Sha256.schedule block i)) : round w (s.map wide) i =
      (Sha256.round (Sha256.constants.getD i 0) (Sha256.schedule block i) s).map wide := by
  simp only [round, hw, addConstant_getD, Sha256.State.map, Sha256.round, bsig0_wide, bsig1_wide,
    ch_wide, maj_wide, mask32bit_eq, BitVec.setWidth_add _ _ (show 32 ≤ 64 by decide),
    setWidth_wide]

theorem hash256Block_wide (s : Sha256.State Sha256.Word) (block : List UInt8) :
    hash256Block (s.map wide) block = (Sha256.compression.compress s block).map wide := by
  have hrounds : ∀ n ≤ 64, (List.range n).foldl (round (schedule block)) (s.map wide) =
      (Sha256.rounds block s n).map wide := by
    intro n hn
    induction n with
    | zero => rfl
    | succ n ih =>
      rw [List.range_succ, List.foldl_append, ih (by omega), List.foldl_cons, List.foldl_nil,
        round_wide _ ((schedule_spec block).2 n (by omega)), Sha256.rounds]
  rw [hash256Block, hrounds 64 (le_refl 64)]
  simp only [Sha256.State.zipWith, Sha256.State.map, Sha256.compression, mask32bit_wide_add]

end Blocks

/-! ## The length of the message

Four digits count the bytes modulo `2 ^ 64`. -/

section Length

def digitsValue (digits : List Word) : ℕ := Nat.ofDigits 65536 (digits.map BitVec.toNat)

def AreDigits (digits : List Word) : Prop := ∀ d ∈ digits, d.toNat < 65536

variable {d c : Word} {digits : List Word}

@[simp] theorem digitsValue_nil : digitsValue [] = 0 := rfl

theorem digitsValue_cons : digitsValue (d :: digits) = d.toNat + 65536 * digitsValue digits := by
  simp [digitsValue, Nat.ofDigits_cons]

theorem digitsValue_lt (h : AreDigits digits) : digitsValue digits < 65536 ^ digits.length := by
  have hlt := Nat.ofDigits_lt_base_pow_length (b := 65536) (l := digits.map BitVec.toNat)
    (by decide) (by simpa using fun d hd => h d hd)
  simpa [digitsValue] using hlt

theorem areDigits_cons : AreDigits (d :: digits) ↔ d.toNat < 65536 ∧ AreDigits digits :=
  List.forall_mem_cons

theorem digit_add_carry (a v N : ℕ) :
    a % 65536 + 65536 * ((a / 65536 + v) % N) = (a + 65536 * v) % (N * 65536) := by
  rw [Nat.mul_comm N, Nat.mod_mul, Nat.add_mul_mod_self_left, Nat.add_mul_div_left _ _ (by decide)]

theorem toNat_and_65535 : (d &&& 65535).toNat = d.toNat % 65536 := by
  have hmask : (65535 : Word).toNat = 2 ^ 16 - 1 := rfl
  rw [BitVec.toNat_and, hmask, Nat.and_two_pow_sub_one_eq_mod]

theorem addCarry_spec (hhead : ∀ d ∈ digits.head?, d.toNat + c.toNat < 2 ^ 64)
    (htail : AreDigits digits.tail) :
    (addCarry c digits).length = digits.length ∧ AreDigits (addCarry c digits) ∧
    digitsValue (addCarry c digits) = (c.toNat + digitsValue digits) % 65536 ^ digits.length := by
  induction digits generalizing c with
  | nil => exact ⟨rfl, nofun, by simp [addCarry, Nat.mod_one]⟩
  | cons d digits ih =>
    have hsum := hhead d rfl
    have hadd : (d + c).toNat = d.toNat + c.toNat := by
      rw [BitVec.toNat_add, Nat.mod_eq_of_lt hsum]
    simp only [List.tail_cons] at htail
    have hvalue : c.toNat + digitsValue (d :: digits) =
        d.toNat + c.toNat + 65536 * digitsValue digits := by
      rw [digitsValue_cons]
      omega
    by_cases hover : 65536 ≤ d + c
    · have hcarry : ((d + c) >>> 16).toNat = (d.toNat + c.toNat) / 65536 := by
        rw [BitVec.toNat_ushiftRight, Nat.shiftRight_eq_div_pow, hadd]
      have hsmall : ∀ e ∈ digits.head?, e.toNat + ((d + c) >>> 16).toNat < 2 ^ 64 := by
        intro e he
        have := htail e (List.mem_of_mem_head? he)
        omega
      obtain ⟨hlen, hdig, hval⟩ := ih hsmall (fun e he => htail e (List.mem_of_mem_tail he))
      rw [addCarry, if_pos hover, List.length_cons, hlen, areDigits_cons, toNat_and_65535,
        digitsValue_cons, toNat_and_65535, hval, hcarry, hadd, hvalue, List.length_cons,
        digit_add_carry, pow_succ]
      exact ⟨rfl, ⟨Nat.mod_lt _ (by decide), hdig⟩, rfl⟩
    · have hlt : d.toNat + c.toNat < 65536 := by
        rw [← hadd]
        exact not_le.mp fun hle => hover (BitVec.le_def.mpr hle)
      have hdig : AreDigits ((d + c) :: digits) := areDigits_cons.mpr ⟨hadd ▸ hlt, htail⟩
      rw [addCarry, if_neg hover]
      refine ⟨rfl, hdig, ?_⟩
      have hbound := digitsValue_lt hdig
      rw [digitsValue_cons, hadd] at hbound ⊢
      rw [hvalue]
      exact (Nat.mod_eq_of_lt hbound).symm

theorem bitLengthDigits_spec (hc : c.toNat < 8) (hdigits : AreDigits digits) :
    (bitLengthDigits c digits).length = digits.length ∧ AreDigits (bitLengthDigits c digits) ∧
    digitsValue (bitLengthDigits c digits) =
      (c.toNat + 8 * digitsValue digits) % 65536 ^ digits.length := by
  induction digits generalizing c with
  | nil => exact ⟨rfl, nofun, by simp [bitLengthDigits, Nat.mod_one]⟩
  | cons d digits ih =>
    obtain ⟨hd, hdigits⟩ := areDigits_cons.mp hdigits
    have hshift : (d <<< 3 ||| c).toNat = 8 * d.toNat + c.toNat := by
      rw [BitVec.toNat_or, BitVec.toNat_shiftLeft, Nat.shiftLeft_eq, Nat.mod_eq_of_lt (by omega),
        Nat.mul_comm, ← Nat.two_pow_add_eq_or_of_lt hc]
    have hcarry : (d >>> 13 &&& 65535).toNat = (8 * d.toNat + c.toNat) / 65536 := by
      rw [toNat_and_65535, BitVec.toNat_ushiftRight, Nat.shiftRight_eq_div_pow]
      omega
    obtain ⟨hlen, hdig, hval⟩ := ih (c := d >>> 13 &&& 65535) (by omega) hdigits
    have hvalue : c.toNat + 8 * digitsValue (d :: digits) =
        8 * d.toNat + c.toNat + 65536 * (8 * digitsValue digits) := by
      rw [digitsValue_cons]
      omega
    rw [bitLengthDigits, List.length_cons, hlen, areDigits_cons, toNat_and_65535, digitsValue_cons,
      toNat_and_65535, hval, hcarry, hshift, hvalue, List.length_cons, digit_add_carry, pow_succ]
    exact ⟨rfl, ⟨Nat.mod_lt _ (by decide), hdig⟩, rfl⟩

theorem toByte_eq {x : Word} {v : ℕ} (h : x.toNat % 256 = v % 256) : toByte x = UInt8.ofNat v := by
  apply UInt8.toNat_inj.mp
  rw [toByte, UInt8.toNat_ofBitVec, BitVec.toNat_setWidth, UInt8.toNat_ofNat']
  exact h

theorem toByte_shift_eq {x : Word} {v : ℕ} (h : x.toNat / 256 % 256 = v % 256) :
    toByte (x >>> 8) = UInt8.ofNat v := by
  apply toByte_eq
  rw [BitVec.toNat_ushiftRight, Nat.shiftRight_eq_div_pow]
  exact h

theorem writeDataBitLength_eq {n : ℕ} (hlen : digits.length = 4) (hdigits : AreDigits digits)
    (hvalue : digitsValue digits = n % 2 ^ 64) :
    writeDataBitLength digits = bigEndian 8 (8 * n) := by
  obtain ⟨hlen', hdigits', hvalue'⟩ := bitLengthDigits_spec (c := 0) (by decide) hdigits
  rw [writeDataBitLength]
  generalize bitLengthDigits 0 digits = bits at hlen' hdigits' hvalue'
  rw [hlen] at hlen' hvalue'
  obtain ⟨b₀, b₁, b₂, b₃, rfl⟩ := List.length_eq_four.mp hlen'
  simp only [areDigits_cons] at hdigits'
  obtain ⟨h₀, h₁, h₂, h₃, -⟩ := hdigits'
  simp only [digitsValue_cons, digitsValue_nil, hvalue] at hvalue'
  have hbits : b₀.toNat + 65536 * (b₁.toNat + 65536 * (b₂.toNat + 65536 * b₃.toNat)) =
      8 * n % 2 ^ 64 := by
    have hzero : (0 : Word).toNat = 0 := rfl
    omega
  change [toByte (b₃ >>> 8), toByte b₃, toByte (b₂ >>> 8), toByte b₂, toByte (b₁ >>> 8), toByte b₁,
      toByte (b₀ >>> 8), toByte b₀] =
    [UInt8.ofNat (8 * n / 256 ^ 7), UInt8.ofNat (8 * n / 256 ^ 6), UInt8.ofNat (8 * n / 256 ^ 5),
      UInt8.ofNat (8 * n / 256 ^ 4), UInt8.ofNat (8 * n / 256 ^ 3), UInt8.ofNat (8 * n / 256 ^ 2),
      UInt8.ofNat (8 * n / 256 ^ 1), UInt8.ofNat (8 * n / 256 ^ 0)]
  simp only [List.cons.injEq, and_true]
  refine ⟨toByte_shift_eq ?_, toByte_eq ?_, toByte_shift_eq ?_, toByte_eq ?_, toByte_shift_eq ?_,
    toByte_eq ?_, toByte_shift_eq ?_, toByte_eq ?_⟩
  all_goals omega

end Length

/-! ## The hasher

After any parts it has fed the message to the compression, up to the bytes that it keeps
in its buffer. -/

section Hasher

def blocks : Compression Digest UInt8 where
  size := 64
  size_pos := Sha256.compression.size_pos
  compress := hash256Block

/-- The hasher has taken in the message. -/
structure Holds (message : List UInt8) (s : Hash256OneByOne) : Prop where
  fed : blocks.feed initialMessageDigest message = (s.h, s.buffer)
  four : s.dataLengthDigits.length = 4
  digits : AreDigits s.dataLengthDigits
  counted : digitsValue s.dataLengthDigits = message.length % 2 ^ 64

theorem holds_nil : Holds [] {} where
  fed := Compression.feed_nil
  four := rfl
  digits := by simp [AreDigits]
  counted := rfl

theorem processBlocks_eq (buffer : List UInt8) {fuel i : ℕ} (h : Digest)
    (hfuel : buffer.length ≤ i + fuel) :
    ((processBlocks buffer fuel i h).1, buffer.drop (processBlocks buffer fuel i h).2) =
      blocks.feed h (buffer.drop i) := by
  induction fuel generalizing i h with
  | zero =>
    have hnil : buffer.drop i = [] := List.drop_of_length_le hfuel
    rw [processBlocks, hnil, Compression.feed_nil]
  | succ fuel ih =>
    rw [processBlocks]
    by_cases hblock : i + 64 ≤ buffer.length
    · have hle : blocks.size ≤ (buffer.drop i).length := by
        rw [List.length_drop]
        exact Nat.le_sub_of_add_le' hblock
      rw [if_pos hblock, ih _ (by omega), Compression.feed_of_le hle, List.drop_drop]
      rfl
    · have hlt : (buffer.drop i).length < blocks.size := by
        rw [List.length_drop]
        change buffer.length - i < 64
        omega
      rw [if_neg hblock, Compression.feed_of_lt hlt]

variable {message data : List UInt8} {s : Hash256OneByOne}

theorem addToDataLength_spec {digits : List Word} {n : ℕ} (hfour : digits.length = 4)
    (hdigits : AreDigits digits) (hn : n < 2 ^ 63) :
    (addToDataLength (BitVec.ofNat 64 n) digits).length = 4 ∧
    AreDigits (addToDataLength (BitVec.ofNat 64 n) digits) ∧
    digitsValue (addToDataLength (BitVec.ofNat 64 n) digits) =
      (digitsValue digits + n) % 2 ^ 64 := by
  cases digits with
  | nil => cases hfour
  | cons d digits =>
    obtain ⟨hd, hdigits⟩ := areDigits_cons.mp hdigits
    have hhead : (d + BitVec.ofNat 64 n).toNat = d.toNat + n := by
      rw [BitVec.toNat_add, BitVec.toNat_ofNat]
      omega
    obtain ⟨hlen, hdig, hval⟩ := @addCarry_spec 0 ((d + BitVec.ofNat 64 n) :: digits)
      (by rintro _ ⟨⟩; exact BitVec.isLt _) hdigits
    refine ⟨hlen.trans hfour, hdig, hval.trans ?_⟩
    have hsum : (0 : Word).toNat + digitsValue ((d + BitVec.ofNat 64 n) :: digits) =
        digitsValue (d :: digits) + n := by
      have hzero : (0 : Word).toNat = 0 := rfl
      rw [digitsValue_cons, digitsValue_cons, hhead]
      omega
    rw [hsum, List.length_cons, ← List.length_cons (a := d), hfour]
    rfl

theorem Holds.process (h : Holds message s) (hdata : data.length < 2 ^ 63) :
    Holds (message ++ data) (process data s) := by
  obtain ⟨hfour, hdigits, hvalue⟩ := addToDataLength_spec h.four h.digits hdata
  refine ⟨?_, hfour, hdigits, ?_⟩
  · rw [Compression.feed_append, h.fed]
    have hloop := processBlocks_eq (s.buffer ++ data) (i := 0) s.h (Nat.zero_add _).ge
    exact hloop.symm
  · refine hvalue.trans ?_
    rw [h.counted, Nat.mod_add_mod, List.length_append]

theorem set_marker {rest : List UInt8} (h : rest.length < 64) :
    (rest ++ List.replicate (64 - rest.length) 0).set rest.length 0x80 =
      rest ++ 0x80 :: List.replicate (63 - rest.length) 0 := by
  have hzeros : 64 - rest.length = 63 - rest.length + 1 := by omega
  rw [List.set_append_right _ _ (le_refl _), Nat.sub_self, hzeros, List.replicate_succ,
    List.set_cons_zero]

theorem take_marked (rest : List UInt8) {n k : ℕ} (hk : rest.length < k)
    (hn : k ≤ rest.length + 1 + n) :
    (rest ++ 0x80 :: List.replicate n 0).take k =
      rest ++ 0x80 :: List.replicate (k - (rest.length + 1)) 0 := by
  obtain ⟨j, rfl⟩ := Nat.exists_eq_add_of_lt hk
  rw [List.take_append, List.take_of_length_le (by omega), Nat.add_assoc, Nat.add_sub_cancel_left,
    List.take_succ_cons, List.take_replicate, Nat.min_eq_left (by omega), ← Nat.add_assoc,
    Nat.add_right_comm, Nat.add_sub_cancel_left]

theorem fill_marked (rest : List UInt8) {n k : ℕ} (hk : rest.length < k)
    (hn : k ≤ rest.length + 1 + n) :
    fill (rest ++ 0x80 :: List.replicate n 0) (rest.length + 1) k 0 =
      rest ++ 0x80 :: List.replicate n 0 := by
  have hwhole : (rest ++ 0x80 :: List.replicate n 0).take k ++
      (rest ++ 0x80 :: List.replicate n 0).drop k = rest ++ 0x80 :: List.replicate n 0 :=
    List.take_append_drop _ _
  rw [take_marked rest hk hn] at hwhole
  rw [fill, take_marked rest (Nat.lt_succ_self _) (Nat.le_add_right _ _), Nat.sub_self]
  simpa using hwhole

theorem finish_short (h : s.buffer.length ≤ 55) : (finish s).h = hash256Block s.h
    (s.buffer ++ 0x80 :: List.replicate (55 - s.buffer.length) 0 ++
      writeDataBitLength s.dataLengthDigits) := by
  have hfill := fill_marked s.buffer (n := 63 - s.buffer.length) (k := 60)
    (by omega) (by omega)
  have htake := take_marked s.buffer (n := 63 - s.buffer.length) (k := 56)
    (by omega) (by omega)
  simp only [finish, if_neg (show ¬ 64 ≤ s.buffer.length by omega),
    if_neg (show ¬ 55 < s.buffer.length by omega), set_marker (show s.buffer.length < 64 by omega),
    hfill, htake]
  rw [show 56 - (s.buffer.length + 1) = 55 - s.buffer.length by omega]

theorem finish_long (h : 55 < s.buffer.length) (hlt : s.buffer.length < 64) :
    (finish s).h = hash256Block (hash256Block s.h
      (s.buffer ++ 0x80 :: List.replicate (63 - s.buffer.length) 0))
        (List.replicate 56 0 ++ writeDataBitLength s.dataLengthDigits) := by
  have hfill := fill_marked s.buffer (n := 63 - s.buffer.length) (k := 64)
    (by omega) (by omega)
  simp only [finish, if_neg (show ¬ 64 ≤ s.buffer.length by omega), if_pos h, set_marker hlt, hfill]
  rfl

theorem Holds.finish (h : Holds message s) :
    (finish s).h = blocks.hash initialMessageDigest (Sha256.pad message) := by
  have hbits := writeDataBitLength_eq h.four h.digits h.counted
  obtain ⟨hlt, whole, hmessage, k, hk⟩ := blocks.rest_feed initialMessageDigest message
  rw [h.fed] at hlt hmessage
  change s.buffer.length < 64 at hlt
  change whole.length = 64 * k at hk
  have hmod : message.length % 64 = s.buffer.length := by
    rw [hmessage, List.length_append, hk, Nat.mul_add_mod, Nat.mod_eq_of_lt hlt]
  rw [Compression.hash, Sha256.pad, List.append_assoc, Compression.feed_append, h.fed, hmod]
  by_cases hshort : s.buffer.length ≤ 55
  · have hzeros : (119 - s.buffer.length) % 64 = 55 - s.buffer.length := by omega
    rw [finish_short hshort, hbits, hzeros, ← List.append_assoc, Compression.feed_block]
    · rfl
    · simp only [List.length_append, List.length_cons, List.length_replicate, length_bigEndian]
      change _ = 64
      omega
  · -- The zeros go on into the next block.
    have hzeros : (119 - s.buffer.length) % 64 = 63 - s.buffer.length + 56 := by omega
    have hsplit : s.buffer ++ (0x80 :: List.replicate (63 - s.buffer.length + 56) 0 ++
        bigEndian 8 (8 * message.length)) =
        s.buffer ++ 0x80 :: List.replicate (63 - s.buffer.length) 0 ++
          (List.replicate 56 0 ++ bigEndian 8 (8 * message.length)) := by
      simp [List.replicate_add]
    rw [finish_long (not_le.mp hshort) hlt, hbits, hzeros, hsplit, Compression.feed_block_append,
      Compression.feed_block]
    · rfl
    · rw [List.length_append, List.length_replicate, length_bigEndian]
      rfl
    · simp only [List.length_append, List.length_cons, List.length_replicate]
      change _ = 64
      omega

theorem holds_foldl (parts : List (List UInt8)) (hparts : ∀ part ∈ parts, part.length < 2 ^ 63)
    (h : Holds message s) :
    Holds (message ++ parts.flatten) (parts.foldl (fun s part => process part s) s) := by
  induction parts generalizing message s with
  | nil => simpa using h
  | cons part parts ih =>
    obtain ⟨hpart, hparts⟩ := List.forall_mem_cons.mp hparts
    have htail := ih hparts (h.process hpart)
    rwa [List.append_assoc] at htail

theorem wordBytes_eq (w : Sha256.Word) :
    ((List.range 4).map fun i => mask8bit (toByte (wide w >>> (24 - 8 * i)))) =
      bigEndian 4 w.toNat := by
  refine List.map_congr_left fun i hi => ?_
  have hi : i < 4 := List.mem_range.mp hi
  rw [mask8bit_eq]
  apply toByte_eq
  have hpow : (2 : ℕ) ^ (24 - 8 * i) = 256 ^ (4 - 1 - i) := by
    rw [show 24 - 8 * i = 8 * (4 - 1 - i) by omega, pow_mul]
    rfl
  have hfits : w.toNat % 2 ^ 64 = w.toNat := Nat.mod_eq_of_lt (w.isLt.trans (by decide))
  rw [BitVec.toNat_ushiftRight, Nat.shiftRight_eq_div_pow, hpow, wide, BitVec.toNat_setWidth,
    hfits]

theorem getHashBytes_wide {t : Sha256.State Sha256.Word} (h : s.h = t.map wide) :
    getHashBytes kDigestSize s = t.toList.flatMap fun w => bigEndian 4 w.toNat := by
  rw [getHashBytes, h]
  simp only [Sha256.State.toList, Sha256.State.map, List.flatMap_cons, List.flatMap_nil,
    wordBytes_eq]
  exact List.take_of_length_le (by simp [kDigestSize])

end Hasher

theorem hash_of_holds {message : List UInt8} {s : Hash256OneByOne} (h : Holds message s) :
    getHashBytes kDigestSize (finish s) = Sha256.sha256 message := by
  apply getHashBytes_wide
  have hmap := Compression.feed_map (F := Sha256.compression) (G := blocks) (ι := .map wide) rfl
    (fun s b _ => hash256Block_wide s b) Sha256.initial (Sha256.pad message)
  rw [h.finish, initialMessageDigest_eq, Compression.hash, hmap]
  rfl

theorem hash256_eq {data : List UInt8} (h : data.length < 2 ^ 63) :
    hash256 data = Sha256.sha256 data :=
  hash_of_holds (holds_nil.process h)

/-- The hash value is the one of the standard, in however many parts the message comes. -/
theorem parts_hash_standard (parts : List (List UInt8))
    (hparts : ∀ part ∈ parts, part.length < 2 ^ 63) :
    getHashBytes kDigestSize (finish (parts.foldl (fun s part => process part s) {})) =
      Sha256.sha256 parts.flatten :=
  hash_of_holds (holds_foldl parts hparts holds_nil)

theorem two_parts_hash_standard :
    getHashBytes kDigestSize (finish (process [0x62, 0x63] (process [0x61] {}))) =
      Sha256.sha256 [0x61, 0x62, 0x63] :=
  parts_hash_standard [[0x61], [0x62, 0x63]] (by decide)

end VoxServer.PicoSha2
