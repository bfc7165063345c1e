import Mathlib.Data.List.Infix
import Mathlib.Data.String.Basic

/-! # Characters as SQLite reads them

SQLite reads a text as UTF-8, up to a NUL, and takes every text: a first byte goes with all
bytes that continue it, so a character has many spellings, and a byte that continues nothing
is a character by itself.
-/

namespace VoxServer.Sql

def leadBits (b : ℕ) : ℕ :=
  if b < 0xE0 then b - 0xC0
  else if b < 0xF0 then b - 0xE0
  else if b < 0xF8 then b - 0xF0
  else if b < 0xFC then b - 0xF8
  else if b < 0xFE then b - 0xFC
  else 0

def addBits (c b : ℕ) : ℕ := (c * 64 + b % 64) % 2 ^ 32

/-- The character of a sequence. ASCII, surrogates and two more are replaced. -/
def decoded (c : ℕ) : ℕ :=
  if c < 0x80 ∨ c / 0x800 = 0x1B ∨ c / 2 = 0x7FFF then 0xFFFD else c

def ended (pending : Option ℕ) : List ℕ := pending.toList.map decoded

/-- The characters of the bytes, after the bits of a sequence that has begun. -/
def characters (pending : Option ℕ) : List ℕ → List ℕ
  | [] => ended pending
  | b :: bs =>
    if b = 0 then ended pending
    else if b < 0x80 then ended pending ++ b :: characters none bs
    else if b < 0xC0 then
      match pending with
      | none => b :: characters none bs
      | some c => characters (some (addBits c b)) bs
    else ended pending ++ characters (some (leadBits b)) bs

def foldCase (c : ℕ) : ℕ := if 0x41 ≤ c ∧ c ≤ 0x5A then c + 0x20 else c

/-- A text has one character for each byte. -/
def bytesOf (text : String) : List ℕ := text.toList.map Char.toNat

def textOf (bs : List ℕ) : String := String.ofList (bs.map Char.ofNat)

theorem toNat_ofNat {b : ℕ} (h : b < 0x100) : (Char.ofNat b).toNat = b := by
  have hvalid : b.isValidChar := .inl (by omega)
  rw [Char.ofNat, dif_pos hvalid]
  rfl

theorem bytesOf_textOf {bs : List ℕ} (h : ∀ b ∈ bs, b < 0x100) : bytesOf (textOf bs) = bs := by
  rw [bytesOf, textOf, String.toList_ofList, List.map_map]
  exact (List.map_congr_left fun b hb => toNat_ofNat (h b hb)).trans (List.map_id bs)

section Characters

variable {pending : Option ℕ} {b c : ℕ} {bs p : List ℕ}

theorem characters_ascii (h₀ : 0 < b) (h : b < 0x80) :
    characters pending (b :: bs) = ended pending ++ b :: characters none bs := by
  simp [characters, h₀.ne', h]

theorem characters_lone (h₁ : 0x80 ≤ b) (h₂ : b < 0xC0) :
    characters none (b :: bs) = b :: characters none bs := by
  rw [characters, if_neg (by omega), if_neg (by omega), if_pos h₂]

theorem characters_continued (h₁ : 0x80 ≤ b) (h₂ : b < 0xC0) :
    characters (some c) (b :: bs) = characters (some (addBits c b)) bs := by
  rw [characters, if_neg (by omega), if_neg (by omega), if_pos h₂]

theorem characters_lead (h : 0xC0 ≤ b) :
    characters pending (b :: bs) = ended pending ++ characters (some (leadBits b)) bs := by
  simp [characters, show b ≠ 0 by omega, show ¬ b < 0x80 by omega, show ¬ b < 0xC0 by omega]

theorem characters_nul (bs rest : List ℕ) :
    characters pending (bs ++ 0 :: rest) = characters pending bs := by
  induction bs generalizing pending with
  | nil => simp [characters]
  | cons b bs ih => simp only [List.cons_append, characters, ih]

theorem characters_of_head (h : ∀ b ∈ bs.head?, ¬ (0x80 ≤ b ∧ b < 0xC0)) :
    characters pending bs = ended pending ++ characters none bs := by
  cases bs with
  | nil => simp [characters, ended]
  | cons b bs =>
    have hb := h b rfl
    by_cases hzero : b = 0
    · simp [characters, hzero, ended]
    by_cases hascii : b < 0x80
    · rw [characters_ascii (by omega) hascii, characters_ascii (by omega) hascii]
      rfl
    · rw [characters_lead (by omega), characters_lead (by omega)]
      rfl

theorem le_decoded (c : ℕ) : 0x80 ≤ decoded c := by
  unfold decoded
  split
  · decide
  · omega

theorem exists_characters_some (c : ℕ) (bs : List ℕ) :
    ∃ d ds, characters (some c) bs = d :: ds ∧ 0x80 ≤ d := by
  induction bs generalizing c with
  | nil => exact ⟨_, _, rfl, le_decoded c⟩
  | cons b bs ih =>
    by_cases hcontinues : 0x80 ≤ b ∧ b < 0xC0
    · rw [characters_continued hcontinues.1 hcontinues.2]
      exact ih _
    · rw [characters_of_head (by simpa using hcontinues)]
      exact ⟨_, _, rfl, le_decoded c⟩

theorem exists_characters_none (h : 0x80 ≤ b) :
    ∃ d ds, characters none (b :: bs) = d :: ds ∧ 0x80 ≤ d := by
  by_cases hlone : b < 0xC0
  · exact ⟨b, _, characters_lone h hlone, h⟩
  · rw [characters_lead (by omega)]
    exact exists_characters_some _ bs

theorem foldCase_lt (h : c < 0x80) : foldCase c < 0x80 := by
  unfold foldCase
  split <;> omega

theorem foldCase_pos (h : 0 < c) : 0 < foldCase c := by
  unfold foldCase
  split <;> omega

theorem foldCase_of_le (h : 0x80 ≤ c) : foldCase c = c := by
  rw [foldCase, if_neg (by omega)]

/-- A text of ASCII is at the start of the characters exactly if it is at that of the bytes. -/
theorem isPrefix_characters_iff (h : ∀ a ∈ p, 0 < a ∧ a < 0x80) :
    p.map foldCase <+: (characters none bs).map foldCase ↔
      p.map foldCase <+: bs.map foldCase := by
  induction p generalizing bs with
  | nil => simp
  | cons a p ih =>
    obtain ⟨ha, hp⟩ := List.forall_mem_cons.mp h
    have hpos := foldCase_pos ha.1
    have hlt := foldCase_lt ha.2
    cases bs with
    | nil => simp [characters, ended]
    | cons b bs =>
      by_cases hzero : b = 0
      · have hne : foldCase a ≠ foldCase 0 := hpos.ne'
        simp [characters, hzero, ended, hne]
      by_cases hascii : b < 0x80
      · rw [characters_ascii (by omega) hascii]
        simp only [ended, Option.toList_none, List.map_nil, List.nil_append, List.map_cons,
          List.cons_prefix_cons, ih hp]
      · have hexists : ∃ d ds, characters none (b :: bs) = d :: ds ∧ 0x80 ≤ d :=
          exists_characters_none (by omega)
        obtain ⟨d, ds, hchars, hd⟩ := hexists
        have hne : foldCase a ≠ foldCase d := by
          rw [foldCase_of_le hd]
          omega
        have hne' : foldCase a ≠ foldCase b := by
          rw [foldCase_of_le (by omega : 0x80 ≤ b)]
          omega
        simp [hchars, hne, hne']

theorem characters_of_ascii (h : ∀ b ∈ bs, 0 < b ∧ b < 0x80) : characters none bs = bs := by
  induction bs with
  | nil => rfl
  | cons b bs ih =>
    obtain ⟨hb, hbs⟩ := List.forall_mem_cons.mp h
    rw [characters_ascii hb.1 hb.2, ih hbs]
    rfl

end Characters

section Spellings

/-- Another spelling of a text: each byte that is a character by itself becomes a sequence of two,
and each sequence begins with another byte and one more. -/
def respell (inSequence : Bool) : List ℕ → List ℕ
  | [] => []
  | b :: bs =>
    if b < 0x80 then b :: respell false bs
    else if b < 0xC0 then
      if inSequence then b :: respell true bs else 0xC2 :: b :: respell false bs
    else (if b = 0xFE then 0xFF else 0xFE) :: (0x80 + leadBits b) :: respell true bs

variable {pending : Option ℕ} {b : ℕ} {bs : List ℕ}

theorem leadBits_lt (b : ℕ) : leadBits b < 0x20 ∨ b < 0xC0 := by
  unfold leadBits
  repeat' split
  all_goals omega

theorem head?_respell_false (b : ℕ) (h : b ∈ (respell false bs).head?) :
    ¬ (0x80 ≤ b ∧ b < 0xC0) := by
  cases bs with
  | nil => cases h
  | cons a bs =>
    simp only [respell, Bool.false_eq_true, if_false] at h
    repeat' split at h
    all_goals
      rw [List.head?_cons, Option.mem_some_iff] at h
      omega

theorem lt_of_mem_respell {inSequence : Bool} (h : b ∈ respell inSequence bs) : b < 0x100 := by
  induction bs generalizing inSequence with
  | nil => cases h
  | cons a bs ih =>
    have hlead := leadBits_lt a
    rw [respell] at h
    repeat' split at h
    all_goals
      simp only [List.mem_cons] at h
      rcases h with h | h
      · omega
    · exact ih h
    · exact ih h
    · rcases h with h | h
      · omega
      · exact ih h
    · rcases h with h | h
      · omega
      · exact ih h
    · rcases h with h | h
      · omega
      · exact ih h

theorem characters_respell (pending : Option ℕ) (h : 0 ∉ bs) :
    characters pending (respell pending.isSome bs) = characters pending bs := by
  induction bs generalizing pending with
  | nil => rfl
  | cons b bs ih =>
    obtain ⟨hb, hbs⟩ := not_or.mp (List.mem_cons.not.mp h)
    rw [respell]
    by_cases hascii : b < 0x80
    · rw [if_pos hascii, characters_ascii (by omega) hascii, characters_ascii (by omega) hascii]
      exact congrArg (fun cs => ended pending ++ b :: cs) (ih none hbs)
    by_cases hlead : 0xC0 ≤ b
    · have hlt := leadBits_lt b
      have hbits : addBits (leadBits (if b = 0xFE then 0xFF else 0xFE)) (0x80 + leadBits b) =
          leadBits b := by
        have hzero : leadBits (if b = 0xFE then 0xFF else 0xFE) = 0 := by
          split <;> rfl
        rw [hzero, addBits]
        omega
      rw [if_neg hascii, if_neg (by omega), characters_lead (by split <;> omega),
        characters_continued (by omega) (by omega), hbits, characters_lead hlead]
      exact congrArg (ended pending ++ ·) (ih (some (leadBits b)) hbs)
    · rw [if_neg hascii, if_pos (by omega)]
      cases pending with
      | some c =>
        rw [characters_continued (by omega) (by omega)]
        exact (characters_continued (by omega) (by omega)).trans
          (ih (some (addBits c b)) hbs)
      | none =>
        have hbits : addBits (leadBits 0xC2) b = b := by
          have htwo : leadBits 0xC2 = 2 := rfl
          rw [htwo, addBits]
          omega
        have hdecoded : decoded b = b := by
          rw [decoded, if_neg (by omega)]
        rw [characters_lone (by omega) (by omega)]
        change characters none (0xC2 :: b :: respell false bs) = _
        rw [characters_lead (by decide), characters_continued (by omega) (by omega), hbits,
          characters_of_head head?_respell_false]
        refine congrArg₂ List.cons hdecoded (ih none hbs)

theorem not_isPrefix_respell (h : ∃ b ∈ bs, 0x80 ≤ b) :
    ¬ bs.map foldCase <+: (respell false bs).map foldCase := by
  induction bs with
  | nil => simp at h
  | cons b bs ih =>
    rw [respell]
    by_cases hascii : b < 0x80
    · obtain ⟨a, ha, hle⟩ := h
      rcases List.mem_cons.mp ha with rfl | ha
      · omega
      · rw [if_pos hascii, List.map_cons, List.map_cons, List.cons_prefix_cons]
        exact fun hpre => ih ⟨a, ha, hle⟩ hpre.2
    · intro hpre
      have hb := foldCase_of_le (by omega : 0x80 ≤ b)
      rw [if_neg hascii] at hpre
      split at hpre
      · rw [if_neg (by simp), List.map_cons, List.map_cons, List.cons_prefix_cons, hb,
          foldCase_of_le (by decide)] at hpre
        omega
      · rw [List.map_cons, List.map_cons, List.cons_prefix_cons, hb,
          foldCase_of_le (by split <;> decide)] at hpre
        have heq := hpre.1
        split at heq <;> omega

end Spellings

theorem toNat_toLower (c : Char) : c.toLower.toNat = foldCase c.toNat := by
  have hle : (c.val ≥ 'A'.val ∧ c.val ≤ 'Z'.val) ↔ (0x41 ≤ c.toNat ∧ c.toNat ≤ 0x5A) := by
    rw [ge_iff_le, UInt32.le_iff_toNat_le, UInt32.le_iff_toNat_le]
    rfl
  unfold Char.toLower foldCase
  split
  · rename_i h
    rw [if_pos (hle.mp h)]
    change (c.val + ('a'.val - 'A'.val)).toNat = c.toNat + 0x20
    have hlt := (hle.mp h).2
    rw [UInt32.toNat_add]
    change (c.toNat + 32) % 2 ^ 32 = _
    omega
  · rename_i h
    rw [if_neg (fun h' => h (hle.mpr h'))]

end VoxServer.Sql
