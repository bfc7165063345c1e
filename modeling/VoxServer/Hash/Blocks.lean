import Mathlib.Tactic.Common

/-! # Hashing block by block

A message is hashed by compressing one block after the other into a state. The blocks
can be taken from the message as its parts come in, with the bytes that do not yet make
up a block kept back: how the message is cut into parts does not matter.
-/

namespace VoxServer.Hash

/-- Blocks of a fixed size, and how one is compressed into the state. -/
structure Compression (σ α : Type) where
  size : ℕ
  size_pos : 0 < size
  compress : σ → List α → σ

namespace Compression

variable {σ τ α : Type} (F : Compression σ α)

/-- The state after all whole blocks of the input, and the rest. -/
def feed (s : σ) (l : List α) : σ × List α :=
  if F.size ≤ l.length then feed (F.compress s (l.take F.size)) (l.drop F.size) else (s, l)
termination_by l.length
decreasing_by
  have := F.size_pos
  rw [List.length_drop]
  omega

/-- The state after a message that is made up of whole blocks. -/
def hash (s : σ) (l : List α) : σ := (F.feed s l).1

section Absorb

variable {F} {s : σ} {l m : List α}

theorem feed_of_lt (h : l.length < F.size) : F.feed s l = (s, l) := by
  rw [feed, if_neg (Nat.not_le_of_lt h)]

theorem feed_nil : F.feed s [] = (s, []) := feed_of_lt F.size_pos

theorem feed_of_le (h : F.size ≤ l.length) :
    F.feed s l = F.feed (F.compress s (l.take F.size)) (l.drop F.size) := by
  rw [feed, if_pos h]

theorem feed_block_append (h : l.length = F.size) :
    F.feed s (l ++ m) = F.feed (F.compress s l) m := by
  rw [feed_of_le (by rw [List.length_append]; omega), ← h, List.take_left, List.drop_left]

theorem feed_block (h : l.length = F.size) : F.feed s l = (F.compress s l, []) := by
  have hblock := feed_block_append (s := s) (m := []) h
  rw [List.append_nil] at hblock
  exact hblock.trans feed_nil

theorem rest_feed (s : σ) (l : List α) :
    (F.feed s l).2.length < F.size ∧ ∃ whole, l = whole ++ (F.feed s l).2 ∧
      F.size ∣ whole.length := by
  fun_induction F.feed s l with
  | case1 s l hle ih =>
    obtain ⟨hlt, whole, hl, hdvd⟩ := ih
    refine ⟨hlt, l.take F.size ++ whole, ?_, ?_⟩
    · rw [List.append_assoc, ← hl, List.take_append_drop]
    · rw [List.length_append, List.length_take_of_le hle]
      exact Nat.dvd_add (Nat.dvd_refl _) hdvd
  | case2 s l hlt => exact ⟨Nat.lt_of_not_le hlt, [], rfl, Nat.dvd_zero _⟩

theorem feed_append (s : σ) (l m : List α) :
    F.feed s (l ++ m) = F.feed (F.feed s l).1 ((F.feed s l).2 ++ m) := by
  fun_induction F.feed s l with
  | case1 s l hle ih =>
    rw [feed_of_le (by rw [List.length_append]; omega), List.take_append_of_le_length hle,
      List.drop_append_of_le_length hle, ih]
  | case2 s l hlt => rfl

end Absorb

section Map

variable {F} {G : Compression τ α} {ι : σ → τ}

theorem feed_map (hsize : G.size = F.size)
    (hmap : ∀ s b, b.length = F.size → G.compress (ι s) b = ι (F.compress s b)) (s : σ)
    (l : List α) : G.feed (ι s) l = Prod.map ι id (F.feed s l) := by
  fun_induction F.feed s l with
  | case1 s l hle ih =>
    rw [feed_of_le (hsize ▸ hle), hsize, hmap _ _ (List.length_take_of_le hle), ih]
  | case2 s l hlt =>
    rw [feed_of_lt (hsize ▸ Nat.lt_of_not_le hlt)]
    rfl

end Map

end Compression

end VoxServer.Hash
