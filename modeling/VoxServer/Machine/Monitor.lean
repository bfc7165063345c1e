import VoxServer.Interleaving.Sequential

/-! # Monitors

An object behind a lock, and the calls that threads make on it. A call runs to its end in
one step when it has the lock and its wait condition holds; until then it waits. The
history keeps the calls that have returned, in the order in which they had the lock.
-/

namespace VoxServer.Machine

open Interleaving (Done)

/-- Where a call is. -/
inductive Progress (C : Type) (R : C → Type)
  | waiting (c : C)
  | returned (d : Done C R)

structure Monitor (σ C : Type) (R : C → Type) where
  state : σ
  /-- The calls in the order in which they were made. -/
  calls : List (Progress C R) := []
  history : List (Done C R) := []

namespace Monitor

inductive Action (C : Type)
  | call (c : C)
  | proceed (i : ℕ)
  deriving DecidableEq, Repr

variable {σ C : Type} {R : C → Type} (exec : (c : C) → σ → Option (R c × σ))

/-- A thread makes a call, or a call that waits has the lock and runs. -/
def step (m : Monitor σ C R) : Action C → Option (Monitor σ C R)
  | .call c => some { m with calls := m.calls ++ [.waiting c] }
  | .proceed i =>
    match m.calls[i]? with
    | some (.waiting c) => (exec c m.state).map fun p =>
      { state := p.2, calls := m.calls.set i (.returned ⟨c, p.1⟩)
        history := m.history ++ [⟨c, p.1⟩] }
    | _ => none

section Rules

variable {exec} {m m' : Monitor σ C R} {i : ℕ}

theorem step_proceed_eq_some (h : step exec m (.proceed i) = some m') :
    ∃ c r s, m.calls[i]? = some (.waiting c) ∧ exec c m.state = some (r, s) ∧
      m' = ⟨s, m.calls.set i (.returned ⟨c, r⟩), m.history ++ [⟨c, r⟩]⟩ := by
  simp only [step] at h
  split at h
  · rename_i c hc
    obtain ⟨⟨r, s⟩, he, rfl⟩ := Option.map_eq_some_iff.mp h
    exact ⟨c, r, s, hc, he, rfl⟩
  · cases h

theorem isSome_step_proceed {c : C} (hc : m.calls[i]? = some (.waiting c)) :
    (step exec m (.proceed i)).isSome = (exec c m.state).isSome := by
  simp [step, hc]

/-- The invariant rule: what each call keeps of the object and the history, a run keeps. -/
theorem run_history {I : σ → List (Done C R) → Prop}
    (hexec : ∀ c r s s' hist, I s hist → exec c s = some (r, s') → I s' (hist ++ [⟨c, r⟩]))
    {s : σ} (hI : I s []) {acts : List (Action C)}
    (hrun : run (step exec) { state := s } acts = some m) : I m.state m.history := by
  refine run_invariant (p := fun _ _ => true) (I := fun m : Monitor σ C R => I m.state m.history) _
    ?_ hI hrun (always_of_forall _ (by simp) _)
  intro m a m' hm _ h
  cases a with
  | call c =>
    cases h
    exact hm
  | proceed i =>
    obtain ⟨c, r, s', -, he, rfl⟩ := step_proceed_eq_some h
    exact hexec c r m.state s' m.history hm he

end Rules

end Monitor

end VoxServer.Machine
