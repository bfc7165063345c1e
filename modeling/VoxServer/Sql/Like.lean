import VoxServer.Sql.Characters

/-! # The operator `LIKE`

A text is compared with a pattern character by character. Case is ignored for the letters of
ASCII only. A pattern without wildcards that is followed by `%` is for the texts that start
with it.
-/

namespace VoxServer.Sql

/-- `%`. -/
def matchAll : ℕ := 0x25

/-- `_`. -/
def matchOne : ℕ := 0x5F

def like : List ℕ → List ℕ → Bool
  | [], cs => cs.isEmpty
  | a :: p, cs =>
    if a = matchAll then cs.tails.any (like p)
    else match cs with
      | [] => false
      | c :: cs => (a = matchOne || foldCase a = foldCase c) && like p cs

/-- `text LIKE pattern`. -/
def isLike (text pattern : String) : Bool :=
  like (characters none (bytesOf pattern)) (characters none (bytesOf text))

/-- The operator throws on a pattern with more bytes. -/
def maxPatternLength : ℕ := 50000

section Like

variable {a c : ℕ} {p cs : List ℕ}

theorem like_percent : like (matchAll :: p) cs ↔ ∃ t, t <:+ cs ∧ like p t := by
  simp [like]

theorem like_of_percent : like [matchAll] cs :=
  like_percent.mpr ⟨[], List.nil_suffix, rfl⟩

theorem like_cons (h : a ≠ matchAll) :
    like (a :: p) (c :: cs) ↔ (a = matchOne ∨ foldCase a = foldCase c) ∧ like p cs := by
  simp [like, h]

theorem not_like_cons_nil (h : a ≠ matchAll) : ¬ like (a :: p) [] := by
  simp [like, h]

/-- Without wildcards, a pattern is followed by anything exactly if the text starts with it. -/
theorem like_append_percent_iff (h₁ : matchAll ∉ p) (h₂ : matchOne ∉ p) :
    like (p ++ [matchAll]) cs ↔ p.map foldCase <+: cs.map foldCase := by
  induction p generalizing cs with
  | nil => simp [like_of_percent]
  | cons a p ih =>
    obtain ⟨ha₁, hp₁⟩ := not_or.mp (List.mem_cons.not.mp h₁)
    obtain ⟨ha₂, hp₂⟩ := not_or.mp (List.mem_cons.not.mp h₂)
    cases cs with
    | nil => simpa using not_like_cons_nil (Ne.symm ha₁)
    | cons c cs =>
      rw [List.cons_append, like_cons (Ne.symm ha₁), or_iff_right (Ne.symm ha₂), ih hp₁ hp₂,
        List.map_cons, List.map_cons, List.cons_prefix_cons]

theorem like_append {q : List ℕ} (h : like q cs) : like (p ++ q) (p ++ cs) := by
  induction p with
  | nil => exact h
  | cons a p ih =>
    by_cases ha : a = matchAll
    · subst ha
      exact like_percent.mpr ⟨p ++ cs, List.suffix_cons _ _, ih⟩
    · exact (like_cons ha).mpr ⟨.inr rfl, ih⟩

theorem like_self : like p p := by
  have h : like (p ++ []) (p ++ []) := like_append rfl
  rwa [List.append_nil] at h

theorem like_append_percent_self : like (p ++ [matchAll]) p := by
  have h : like (p ++ [matchAll]) (p ++ []) := like_append like_of_percent
  rwa [List.append_nil] at h

def fill (p : List ℕ) : List ℕ := p.map fun a => if a = matchAll ∨ a = matchOne then 0x78 else a

theorem like_fill : like (p ++ [matchAll]) (fill p) := by
  induction p with
  | nil => exact like_of_percent
  | cons a p ih =>
    by_cases ha : a = matchAll
    · subst ha
      exact like_percent.mpr ⟨fill p, List.suffix_cons _ _, ih⟩
    · refine (like_cons ha).mpr ⟨?_, ih⟩
      by_cases hone : a = matchOne
      · exact .inl hone
      · simp [ha, hone]

theorem fold_fill_ne (h : matchAll ∈ p ∨ matchOne ∈ p) :
    ¬ p.map foldCase <+: (fill p).map foldCase := by
  intro hpre
  have heq := hpre.eq_of_length (by simp [fill])
  rw [fill, List.map_map, List.map_inj_left] at heq
  rcases h with h | h
  · exact absurd (heq _ h) (by decide)
  · exact absurd (heq _ h) (by decide)

theorem fill_append (p q : List ℕ) : fill (p ++ q) = fill p ++ fill q := List.map_append

end Like

section Patterns

variable {pending : Option ℕ} {bs : List ℕ}

theorem characters_append_percent (h : 0 ∉ bs) :
    characters pending (bs ++ [matchAll]) = characters pending bs ++ [matchAll] := by
  induction bs generalizing pending with
  | nil => simp [characters, matchAll, ended]
  | cons b bs ih =>
    obtain ⟨hb, hbs⟩ := not_or.mp (List.mem_cons.not.mp h)
    simp only [List.cons_append, characters, if_neg (Ne.symm hb), ih hbs]
    split
    · simp
    split
    · split
      · simp
      · rfl
    · simp

theorem fill_ended : fill (ended pending) = ended pending := by
  cases pending with
  | none => rfl
  | some c =>
    have hle := le_decoded c
    have hkeep : ¬ (decoded c = matchAll ∨ decoded c = matchOne) := by
      unfold matchAll matchOne
      omega
    simp [fill, ended, hkeep]

theorem characters_fill (h : 0 ∉ bs) :
    characters pending (fill bs) = fill (characters pending bs) := by
  induction bs generalizing pending with
  | nil => exact fill_ended.symm
  | cons b bs ih =>
    obtain ⟨hb, hbs⟩ := not_or.mp (List.mem_cons.not.mp h)
    by_cases hascii : b < 0x80
    · have hcons : ∀ bs, fill (b :: bs) =
          (if b = matchAll ∨ b = matchOne then 0x78 else b) :: fill bs := fun _ => rfl
      rw [characters_ascii (by omega) hascii, fill_append, fill_ended, hcons, hcons, ← ih hbs]
      exact characters_ascii (by split <;> omega) (by split <;> omega)
    · have hcons : ∀ bs, fill (b :: bs) = b :: fill bs := by
        intro bs
        have hkeep : ¬ (b = matchAll ∨ b = matchOne) := by
          unfold matchAll matchOne
          omega
        simp [fill, hkeep]
      rw [hcons]
      by_cases hlead : 0xC0 ≤ b
      · rw [characters_lead hlead, characters_lead hlead, fill_append, fill_ended, ih hbs]
      · cases pending with
        | none =>
          rw [characters_lone (by omega) (by omega), characters_lone (by omega) (by omega), hcons,
            ih hbs]
        | some c =>
          rw [characters_continued (by omega) (by omega),
            characters_continued (by omega) (by omega), ih hbs]

end Patterns

end VoxServer.Sql
