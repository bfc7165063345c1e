import Mathlib.Data.List.DropRight
import VoxServer.Text.Decimal

/-! # Lines of a text

A text is read line by line, as `std::getline` does it, and lines are stripped of the
white space at both ends.
-/

namespace VoxServer.Text

def lines : List Char → List (List Char)
  | [] => []
  | c :: cs =>
    if c = '\n' then [] :: lines cs else
    match lines cs with
    | [] => [[c]]
    | l :: ls => (c :: l) :: ls

def trim (s : List Char) : List Char := (s.dropWhile isSpace).rdropWhile isSpace

section Lines

variable {l rest : List Char}

theorem lines_append_newline (h : '\n' ∉ l) : lines (l ++ '\n' :: rest) = l :: lines rest := by
  induction l with
  | nil => simp [lines]
  | cons c l ih =>
    obtain ⟨hc, hl⟩ := List.ne_and_not_mem_of_not_mem_cons h
    rw [List.cons_append, lines, if_neg (Ne.symm hc), ih hl]

theorem lines_of_not_mem (h : '\n' ∉ l) (hl : l ≠ []) : lines l = [l] := by
  induction l with
  | nil => exact absurd rfl hl
  | cons c l ih =>
    obtain ⟨hc, hmem⟩ := List.ne_and_not_mem_of_not_mem_cons h
    rw [lines, if_neg (Ne.symm hc)]
    cases l with
    | nil => rfl
    | cons c' l => rw [ih hmem (List.cons_ne_nil _ _)]

/-- Lines that are put together again are read as they were, except for an empty one at the end. -/
theorem lines_intercalate {ls : List (List Char)} (h : ∀ l ∈ ls, '\n' ∉ l) :
    lines (['\n'].intercalate ls) = ls ∨ lines (['\n'].intercalate ls) ++ [[]] = ls := by
  induction ls with
  | nil => exact .inl rfl
  | cons l ls ih =>
    have hl := h l List.mem_cons_self
    cases ls with
    | nil =>
      rw [List.intercalate_singleton]
      by_cases hnil : l = []
      · right
        rw [hnil]
        rfl
      · left
        exact lines_of_not_mem hl hnil
    | cons l' ls =>
      rw [List.intercalate_cons_cons, List.append_assoc, List.singleton_append,
        lines_append_newline hl]
      refine (ih fun l hl => h l (List.mem_cons_of_mem _ hl)).imp ?_ ?_
      · intro he
        rw [he]
      · intro he
        rw [List.cons_append, he]

end Lines

section Trim

variable {s : List Char}

theorem trim_eq_nil (h : s.all isSpace) : trim s = [] := by
  rw [trim, List.dropWhile_eq_nil_iff.mpr (List.all_eq_true.mp h), List.rdropWhile_nil]

theorem rdropWhile_append_cons {p : Char → Bool} {a : Char} (h : ¬ p a) (l s : List Char) :
    (l ++ a :: s).rdropWhile p = l ++ a :: s.rdropWhile p := by
  induction s using List.reverseRecOn with
  | nil => rw [List.rdropWhile_nil, List.rdropWhile_concat, if_neg h]
  | append_singleton s b ih =>
    rw [← List.cons_append, ← List.append_assoc, List.rdropWhile_concat, ih, List.rdropWhile_concat]
    split
    · rfl
    · rw [List.append_assoc, List.cons_append]

theorem trim_cons_of_space {a : Char} (h : isSpace a) : trim (a :: s) = trim s := by
  rw [trim, List.dropWhile_cons_of_pos h, trim]

theorem trim_cons {a : Char} (h : ¬ isSpace a) : trim (a :: s) = a :: s.rdropWhile isSpace := by
  rw [trim, List.dropWhile_cons_of_neg h]
  exact rdropWhile_append_cons h [] s

theorem mem_of_mem_trim {c : Char} (h : c ∈ trim s) : c ∈ s :=
  (List.dropWhile_suffix _).subset ((List.rdropWhile_prefix _ _).subset h)

end Trim

end VoxServer.Text
