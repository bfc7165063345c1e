import Mathlib.Data.List.Basic
import VoxServer.Text.Decimal

/-! # Hexadecimal numerals in text

Reading a hexadecimal numeral as `strtoul` does it with radix 16: white space, a sign and
`0x` may stand before the digits, and what follows the digits is ignored. Two printed
digits are read back as the byte that they were printed for.
-/

namespace VoxServer.Text

def hexValue? (c : Char) : Option ℕ :=
  if '0' ≤ c ∧ c ≤ '9' then some (c.toNat - '0'.toNat)
  else if 'a' ≤ c ∧ c ≤ 'f' then some (c.toNat - 'a'.toNat + 10)
  else if 'A' ≤ c ∧ c ≤ 'F' then some (c.toNat - 'A'.toNat + 10)
  else none

def hexValues : List Char → List ℕ
  | [] => []
  | c :: cs =>
    match hexValue? c with
    | none => []
    | some d => d :: hexValues cs

/-- The digits after `0x`; without digits behind it, the zero is the numeral. -/
def dropRadix : List Char → List Char
  | '0' :: x :: cs => if (x = 'x' ∨ x = 'X') ∧ hexValues cs ≠ [] then cs else '0' :: x :: cs
  | cs => cs

def unsignedHex (cs : List Char) : Option ℕ :=
  match hexValues (dropRadix cs) with
  | [] => none
  | ds => some (ds.foldl (fun n d => 16 * n + d) 0)

/-- A hexadecimal numeral after white space, with an optional sign; what follows is ignored. -/
def leadingHex (cs : List Char) : Option ℤ :=
  match cs.dropWhile isSpace with
  | '-' :: cs => (unsignedHex cs).map fun n => -(n : ℤ)
  | '+' :: cs => (unsignedHex cs).map fun n => (n : ℤ)
  | cs => (unsignedHex cs).map fun n => (n : ℤ)

def twoDigits (b : UInt8) : List Char := (Nat.toDigits 16 b.toNat).leftpad 2 '0'

section Digits

variable {d e : ℕ}

theorem hexValue?_digitChar (h : d < 16) : hexValue? (Nat.digitChar d) = some d := by
  have hall : ∀ d < 16, hexValue? (Nat.digitChar d) = some d := by decide
  exact hall d h

theorem digitChar_plain (h : d < 16) :
    isSpace (Nat.digitChar d) = false ∧ Nat.digitChar d ≠ '-' ∧ Nat.digitChar d ≠ '+' ∧
      Nat.digitChar d ≠ 'x' ∧ Nat.digitChar d ≠ 'X' := by
  have hall : ∀ d < 16, isSpace (Nat.digitChar d) = false ∧ Nat.digitChar d ≠ '-' ∧
      Nat.digitChar d ≠ '+' ∧ Nat.digitChar d ≠ 'x' ∧ Nat.digitChar d ≠ 'X' := by decide
  exact hall d h

theorem dropRadix_digits (he : e < 16) :
    dropRadix [Nat.digitChar d, Nat.digitChar e] = [Nat.digitChar d, Nat.digitChar e] := by
  obtain ⟨-, -, -, hx, hX⟩ := digitChar_plain he
  unfold dropRadix
  split
  · rename_i heq
    obtain ⟨hd, htail⟩ := List.cons.inj heq
    obtain ⟨rfl, rfl⟩ := List.cons.inj htail
    rw [if_neg fun h => h.1.elim hx hX, hd]
  · rfl

theorem unsignedHex_digits (hd : d < 16) (he : e < 16) :
    unsignedHex [Nat.digitChar d, Nat.digitChar e] = some (16 * d + e) := by
  have hvalues : hexValues [Nat.digitChar d, Nat.digitChar e] = [d, e] := by
    simp only [hexValues, hexValue?_digitChar hd, hexValue?_digitChar he]
  rw [unsignedHex, dropRadix_digits he, hvalues]
  simp

theorem leadingHex_digits (hd : d < 16) (he : e < 16) :
    leadingHex [Nat.digitChar d, Nat.digitChar e] = some ((16 * d + e : ℕ) : ℤ) := by
  obtain ⟨hspace, hminus, hplus, -, -⟩ := digitChar_plain hd
  unfold leadingHex
  rw [List.dropWhile_cons_of_neg (by simp [hspace])]
  split
  · rename_i heq
    exact absurd (List.cons.inj heq).1 hminus
  · rename_i heq
    exact absurd (List.cons.inj heq).1 hplus
  · rw [unsignedHex_digits hd he]
    rfl

end Digits

section Bytes

variable (b : UInt8)

theorem twoDigits_eq :
    twoDigits b = [Nat.digitChar (b.toNat / 16), Nat.digitChar (b.toNat % 16)] := by
  have hlt := b.toNat_lt
  unfold twoDigits
  by_cases hsmall : b.toNat < 16
  · rw [Nat.toDigits_of_lt_base hsmall, Nat.div_eq_of_lt hsmall, Nat.mod_eq_of_lt hsmall]
    rfl
  · have hhigh : b.toNat / 16 < 16 := by omega
    rw [Nat.toDigits_of_base_le (by decide) (not_lt.mp hsmall), Nat.toDigits_of_lt_base hhigh]
    rfl

theorem leadingHex_twoDigits : leadingHex (twoDigits b) = some (b.toNat : ℤ) := by
  have hlt := b.toNat_lt
  have hhalves : 16 * (b.toNat / 16) + b.toNat % 16 = b.toNat := Nat.div_add_mod _ _
  rw [twoDigits_eq, leadingHex_digits (by omega) (by omega), hhalves]

end Bytes

/-- The number in at least so many digits, in lower case and with zeros in front. -/
def paddedHex (width n : ℕ) : List Char := (Nat.toDigits 16 n).leftpad width '0'

def isHexDigit (c : Char) : Bool := c ∈ "0123456789abcdef".toList

theorem isHexDigit_digitChar {d : ℕ} (h : d < 16) : isHexDigit (Nat.digitChar d) := by
  have hall : ∀ d < 16, isHexDigit (Nat.digitChar d) := by decide
  exact hall d h

section Padded

variable {width n : ℕ}

theorem paddedHex_one (h : n < 16) : paddedHex 1 n = [Nat.digitChar n] := by
  rw [paddedHex, Nat.toDigits_of_lt_base h]
  rfl

theorem paddedHex_succ (hwidth : 0 < width) :
    paddedHex (width + 1) n = paddedHex width (n / 16) ++ [Nat.digitChar (n % 16)] := by
  simp only [paddedHex, List.leftpad]
  rcases Nat.lt_or_ge n 16 with h | h
  · obtain ⟨k, rfl⟩ := Nat.exists_eq_add_of_lt hwidth
    rw [Nat.div_eq_of_lt h, Nat.mod_eq_of_lt h, Nat.toDigits_of_lt_base h,
      Nat.toDigits_of_lt_base (by decide)]
    simp [List.replicate_succ']
  · rw [Nat.toDigits_of_base_le (by decide) h, List.length_append, List.length_singleton,
      Nat.add_sub_add_right, List.append_assoc]

theorem length_paddedHex (hwidth : 0 < width) (h : n < 16 ^ width) :
    (paddedHex width n).length = width ∧ ∀ c ∈ paddedHex width n, isHexDigit c := by
  induction width, hwidth using Nat.le_induction generalizing n with
  | base =>
    rw [paddedHex_one (by simpa using h)]
    simpa using isHexDigit_digitChar (by simpa using h)
  | succ width hwidth ih =>
    rw [Nat.pow_succ] at h
    obtain ⟨hlength, hdigits⟩ := ih (n := n / 16) (by omega)
    rw [paddedHex_succ hwidth]
    constructor
    · rw [List.length_append, hlength]
      rfl
    · intro c hc
      rcases List.mem_append.mp hc with hc | hc
      · exact hdigits c hc
      · rw [List.mem_singleton.mp hc]
        exact isHexDigit_digitChar (Nat.mod_lt _ (by decide))

end Padded

/-- Numbers with the width of each, printed one after the other with a separator between. -/
def hexFields (sep : Char) (fields : List (ℕ × ℕ)) : List Char :=
  [sep].intercalate (fields.map fun f => paddedHex f.1 f.2)

def Fits (field : ℕ × ℕ) : Prop := 0 < field.1 ∧ field.2 < 16 ^ field.1

section Fields

variable {sep : Char} {fields : List (ℕ × ℕ)}

theorem hexFields_cons_cons (f g : ℕ × ℕ) :
    hexFields sep (f :: g :: fields) =
      paddedHex f.1 f.2 ++ sep :: hexFields sep (g :: fields) := by
  simp [hexFields, List.intercalate]

theorem hexFields_singleton (f : ℕ × ℕ) : hexFields sep [f] = paddedHex f.1 f.2 := by
  simp [hexFields, List.intercalate]

theorem isHexDigit_or_of_mem (hfits : ∀ f ∈ fields, Fits f) {c : Char}
    (hc : c ∈ hexFields sep fields) : isHexDigit c ∨ c = sep := by
  induction fields with
  | nil => simp [hexFields, List.intercalate] at hc
  | cons f fields ih =>
    obtain ⟨hf, hfits⟩ := List.forall_mem_cons.mp hfits
    have hdigits := (length_paddedHex hf.1 hf.2).2
    cases fields with
    | nil =>
      rw [hexFields_singleton] at hc
      exact .inl (hdigits c hc)
    | cons g fields =>
      rw [hexFields_cons_cons, List.mem_append, List.mem_cons] at hc
      rcases hc with hc | hc | hc
      · exact .inl (hdigits c hc)
      · exact .inr hc
      · exact ih hfits hc

end Fields

end VoxServer.Text
