import Mathlib.Data.List.Basic
import Mathlib.Data.String.Basic

/-! # Percent-encoding

A byte string as text, with the bytes that are not unreserved characters written as a
percent sign and two hexadecimal digits. The encoding keeps a byte string as it is exactly
if all of its bytes are unreserved.
-/

namespace VoxServer.Text

/-- The text that has the bytes as its characters. -/
def ofBytes (bs : List UInt8) : List Char := bs.map Char.ofUInt8

def isUnreserved (c : Char) : Bool := c.isAlphanum ∨ c = '-' ∨ c = '.' ∨ c = '_' ∨ c = '~'

def hexDigit (n : ℕ) : Char := (Nat.digitChar n).toUpper

def percentEncodeByte (b : UInt8) : List Char :=
  if isUnreserved (Char.ofUInt8 b) then [Char.ofUInt8 b]
  else ['%', hexDigit (b.toNat / 16), hexDigit (b.toNat % 16)]

def percentEncode (bs : List UInt8) : List Char := bs.flatMap percentEncodeByte

theorem isUnreserved_hexDigit {n : ℕ} (h : n < 16) : isUnreserved (hexDigit n) := by
  have hall : ∀ n < 16, isUnreserved (hexDigit n) := by decide
  exact hall n h

theorem mem_percentEncode {bs : List UInt8} {c : Char} (h : c ∈ percentEncode bs) :
    isUnreserved c ∨ c = '%' := by
  obtain ⟨b, -, hb⟩ := List.mem_flatMap.mp h
  have hlt := b.toNat_lt
  unfold percentEncodeByte at hb
  split at hb
  · rename_i hu
    rw [List.mem_singleton.mp hb]
    exact .inl hu
  · simp only [List.mem_cons, List.not_mem_nil, or_false] at hb
    rcases hb with rfl | rfl | rfl
    · exact .inr rfl
    · exact .inl (isUnreserved_hexDigit (by omega))
    · exact .inl (isUnreserved_hexDigit (by omega))

theorem length_percentEncodeByte_le (b : UInt8) : 1 ≤ (percentEncodeByte b).length := by
  unfold percentEncodeByte
  split <;> simp

theorem length_le_percentEncode (bs : List UInt8) : bs.length ≤ (percentEncode bs).length := by
  induction bs with
  | nil => simp
  | cons b bs ih =>
    have hb := length_percentEncodeByte_le b
    simp only [percentEncode, List.flatMap_cons, List.length_append, List.length_cons] at ih ⊢
    omega

theorem percentEncode_eq_ofBytes {bs : List UInt8} :
    percentEncode bs = ofBytes bs ↔ ∀ b ∈ bs, isUnreserved (Char.ofUInt8 b) := by
  induction bs with
  | nil => simp [percentEncode, ofBytes]
  | cons b bs ih =>
    rw [List.forall_mem_cons, ← ih]
    simp only [percentEncode, ofBytes, List.flatMap_cons, List.map_cons]
    by_cases hb : isUnreserved (Char.ofUInt8 b)
    · simp [percentEncodeByte, hb]
    · simp only [hb, Bool.false_eq_true, false_and, iff_false]
      intro he
      have hlen := congrArg List.length he
      have hle := length_le_percentEncode bs
      simp only [percentEncodeByte, hb, Bool.false_eq_true, if_false, List.length_append,
        List.length_cons, List.length_nil, List.length_map, percentEncode] at hlen hle
      omega

end VoxServer.Text
