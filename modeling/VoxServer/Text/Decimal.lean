import Mathlib.Algebra.Ring.Int.Defs
import Mathlib.Data.String.Basic
import Mathlib.Data.Int.Basic

/-! # Separators and decimal numerals in text

Cutting a text at the first separator, and reading and printing signed decimal
numerals. Reading back a printed numeral gives the number, whatever follows it.
-/

namespace VoxServer.Text

/-- The parts before and after the first separator, if there is one. -/
def splitAtFirst (sep : Char) : List Char → Option (List Char × List Char)
  | [] => none
  | c :: cs =>
    if c = sep then some ([], cs) else (splitAtFirst sep cs).map fun p => (c :: p.1, p.2)

theorem splitAtFirst_append {sep : Char} {l : List Char} (h : sep ∉ l) (m : List Char) :
    splitAtFirst sep (l ++ sep :: m) = some (l, m) := by
  induction l with
  | nil => simp [splitAtFirst]
  | cons c l ih =>
    obtain ⟨hc, hl⟩ := List.ne_and_not_mem_of_not_mem_cons h
    simp [splitAtFirst, Ne.symm hc, ih hl]

theorem splitAtFirst_append_left {sep : Char} {l : List Char} (h : sep ∉ l) (m : List Char) :
    splitAtFirst sep (l ++ m) = (splitAtFirst sep m).map fun p => (l ++ p.1, p.2) := by
  induction l with
  | nil => simp
  | cons c l ih =>
    obtain ⟨hc, hl⟩ := List.ne_and_not_mem_of_not_mem_cons h
    simp [splitAtFirst, Ne.symm hc, ih hl, Function.comp_def]

theorem splitAtFirst_eq_some {sep : Char} {l a b : List Char} :
    splitAtFirst sep l = some (a, b) ↔ l = a ++ sep :: b ∧ sep ∉ a := by
  constructor
  · intro h
    induction l generalizing a with
    | nil => cases h
    | cons c l ih =>
      rw [splitAtFirst] at h
      split at h
      · rename_i hc
        cases h
        simp [hc]
      · rename_i hc
        obtain ⟨⟨a', b'⟩, hp, he⟩ := Option.map_eq_some_iff.mp h
        cases he
        obtain ⟨rfl, hsep⟩ := ih hp
        simp [hsep, Ne.symm hc]
  · rintro ⟨rfl, hsep⟩
    exact splitAtFirst_append hsep b

theorem splitAtFirst_eq_none {sep : Char} {l : List Char} :
    splitAtFirst sep l = none ↔ sep ∉ l := by
  induction l with
  | nil => simp [splitAtFirst]
  | cons c l ih =>
    rw [splitAtFirst]
    split
    · simp_all
    · rename_i hc
      simp [ih, Ne.symm hc]

def digits (cs : List Char) : Option (ℕ × List Char) :=
  match cs.takeWhile Char.isDigit with
  | [] => none
  | ds => some (Nat.ofDigitChars 10 ds 0, cs.dropWhile Char.isDigit)

/-- A numeral with an optional minus sign, with the rest of the text. -/
def signed : List Char → Option (ℤ × List Char)
  | '-' :: cs => (digits cs).map fun p => (-(p.1 : ℤ), p.2)
  | cs => (digits cs).map fun p => ((p.1 : ℤ), p.2)

def isSpace (c : Char) : Bool := c = ' ' ∨ ('\t' ≤ c ∧ c ≤ '\r')

/-- A numeral after white space, with an optional sign of either kind; what follows is ignored. -/
def leading (cs : List Char) : Option ℤ :=
  match cs.dropWhile isSpace with
  | '+' :: cs => (digits cs).map fun p => (p.1 : ℤ)
  | cs => (signed cs).map Prod.fst

theorem digits_toDigits (n : ℕ) {rest : List Char} (hr : ∀ c ∈ rest.head?, ¬ c.isDigit) :
    digits (Nat.toDigits 10 n ++ rest) = some (n, rest) := by
  have hd : ∀ c ∈ Nat.toDigits 10 n, c.isDigit := fun c hc =>
    Nat.isDigit_of_mem_toDigits (by decide) (by decide) hc
  have ht : rest.takeWhile Char.isDigit = [] ∧ rest.dropWhile Char.isDigit = rest := by
    cases rest with
    | nil => exact ⟨rfl, rfl⟩
    | cons c cs => simp [hr c rfl]
  rw [digits, List.takeWhile_append_of_pos hd, List.dropWhile_append_of_pos hd, ht.1, ht.2,
    List.append_nil]
  split
  · exact absurd ‹_› Nat.toDigits_ne_nil
  · simp

theorem toList_toString_int (n : ℤ) : (toString n).toList =
    if n < 0 then '-' :: Nat.toDigits 10 n.natAbs else Nat.toDigits 10 n.natAbs := by
  rw [Int.toString_eq_repr, Int.repr_eq_if]
  by_cases hn : n < 0
  · simp [hn, show ¬ 0 ≤ n by omega, show (-n).toNat = n.natAbs by omega]
  · simp [hn, show 0 ≤ n by omega, show n.toNat = n.natAbs by omega]

theorem signed_of_isDigit {c : Char} {cs : List Char} (h : c.isDigit) :
    signed (c :: cs) = (digits (c :: cs)).map fun p => ((p.1 : ℤ), p.2) := by
  unfold signed
  split
  · rename_i heq
    obtain ⟨rfl, -⟩ := List.cons.inj heq
    simp at h
  · rfl

theorem signed_toString (n : ℤ) {rest : List Char} (hr : ∀ c ∈ rest.head?, ¬ c.isDigit) :
    signed ((toString n).toList ++ rest) = some (n, rest) := by
  rw [toList_toString_int]
  split
  · rename_i hn
    simp only [List.cons_append, signed, digits_toDigits _ hr, Option.map_some]
    congr 2; omega
  · rename_i hn
    obtain ⟨c, cs, hc⟩ := List.exists_cons_of_ne_nil (Nat.toDigits_ne_nil (n := n.natAbs) (b := 10))
    have hd : c.isDigit := Nat.isDigit_of_mem_toDigits (b := 10) (n := n.natAbs)
      (by decide) (by decide) (by simp [hc])
    have := digits_toDigits n.natAbs hr
    rw [hc, List.cons_append] at this ⊢
    rw [signed_of_isDigit hd, this]
    simp only [Option.map_some]
    congr 2; omega

theorem head_toString (n : ℤ) :
    ∃ c cs, (toString n).toList = c :: cs ∧ (c = '-' ∨ c.isDigit) := by
  obtain ⟨c, cs, hc⟩ := List.exists_cons_of_ne_nil (Nat.toDigits_ne_nil (n := n.natAbs) (b := 10))
  rw [toList_toString_int]
  split
  · exact ⟨_, _, rfl, .inl rfl⟩
  · refine ⟨c, cs, hc, .inr ?_⟩
    exact Nat.isDigit_of_mem_toDigits (b := 10) (n := n.natAbs) (by decide) (by decide)
      (by simp [hc])

theorem leading_toString (n : ℤ) {rest : List Char} (hr : ∀ c ∈ rest.head?, ¬ c.isDigit) :
    leading ((toString n).toList ++ rest) = some n := by
  obtain ⟨c, cs, hc, hd⟩ := head_toString n
  have hspace : ¬ isSpace c ∧ c ≠ '+' := by
    rcases hd with rfl | hd
    · decide
    · simp only [Char.isDigit, ge_iff_le, Bool.and_eq_true, decide_eq_true_eq] at hd
      constructor
      · simp only [isSpace, decide_eq_true_eq, not_or, not_and, Char.not_le]
        refine ⟨fun h => absurd (h ▸ hd.1) (by decide), fun _ => ?_⟩
        exact lt_of_lt_of_le (by decide : '\r' < '0') hd.1
      · exact fun h => absurd (h ▸ hd.1) (by decide)
  have hs := signed_toString n hr
  unfold leading
  rw [hc, List.cons_append] at hs ⊢
  rw [List.dropWhile_cons_of_neg (by simpa using hspace.1)]
  split
  · rename_i he
    exact absurd (List.cons.inj he).1 hspace.2
  · rw [hs]; rfl

theorem not_mem_toString (n : ℤ) {c : Char} (hc : ¬ c.isDigit) (hs : c ≠ '-') :
    c ∉ (toString n).toList := by
  have hd : c ∉ Nat.toDigits 10 n.natAbs := fun h =>
    hc (Nat.isDigit_of_mem_toDigits (by decide) (by decide) h)
  rw [toList_toString_int]
  split <;> simp [hs, hd]

end VoxServer.Text
