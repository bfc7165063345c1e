import VoxServer.Text.Hex

/-! # Identifiers of the server

`GenerateUuid` writes two drawn words as a UUID of version 4, in hexadecimal digits and
hyphens.
-/

namespace VoxServer.Uuid

open Text

def kHighVersionMask : UInt64 := 0xFFFFFFFFFFFF0FFF

def kHighVersionValue : UInt64 := 0x0000000000004000

def kLowVariantMask : UInt64 := 0x3FFFFFFFFFFFFFFF

def kLowVariantValue : UInt64 := 0x8000000000000000

def kLowNodeMask : UInt64 := 0x0000FFFFFFFFFFFF

def kHighMsbShift : UInt64 := 32

def kHighMidShift : UInt64 := 16

def kLowMsbShift : UInt64 := 48

def kNibbleMask : UInt64 := 0xFFFF

/-- The arguments of the format, each with the width that it is printed in. -/
def fields (high low : UInt64) : List (ℕ × ℕ) :=
  [(8, (high >>> kHighMsbShift).toUInt32.toNat),
    (4, ((high >>> kHighMidShift) &&& kNibbleMask).toUInt16.toNat),
    (4, (high &&& kNibbleMask).toUInt16.toNat),
    (4, (low >>> kLowMsbShift).toUInt16.toNat),
    (12, (low &&& kLowNodeMask).toNat)]

/-- `high` and `low` are the two values that the generator draws. -/
def generateUuid (high low : UInt64) : String :=
  let high := (high &&& kHighVersionMask) ||| kHighVersionValue
  let low := (low &&& kLowVariantMask) ||| kLowVariantValue
  String.ofList (hexFields '-' (fields high low))

section Words

variable {high low : UInt64}

theorem fields_eq : fields high low =
    [(8, high.toNat / 2 ^ 32), (4, high.toNat / 2 ^ 16 % 2 ^ 16), (4, high.toNat % 2 ^ 16),
      (4, low.toNat / 2 ^ 48), (12, low.toNat % 2 ^ 48)] := by
  have hhigh := high.toNat_lt
  have hlow := low.toNat_lt
  have hmask : ∀ k n : ℕ, n &&& (2 ^ k - 1) = n % 2 ^ k := fun k n =>
    Nat.and_two_pow_sub_one_eq_mod n k
  have hnibble : ∀ n : ℕ, n &&& 65535 = n % 2 ^ 16 := hmask 16
  have hnode : ∀ n : ℕ, n &&& 281474976710655 = n % 2 ^ 48 := hmask 48
  simp [fields, kHighMsbShift, kHighMidShift, kLowMsbShift, kNibbleMask, kLowNodeMask,
    Nat.shiftRight_eq_div_pow, hnibble, hnode]
  omega

theorem fits_fields : ∀ f ∈ fields high low, Fits f := by
  have hhigh := high.toNat_lt
  have hlow := low.toNat_lt
  rw [fields_eq]
  simp [Fits]
  omega

end Words

theorem isHexDigit_or_of_mem_generateUuid {high low : UInt64} {c : Char}
    (hc : c ∈ (generateUuid high low).toList) : isHexDigit c ∨ c = '-' := by
  rw [generateUuid, String.toList_ofList] at hc
  exact isHexDigit_or_of_mem fits_fields hc

end VoxServer.Uuid
