import Mathlib.Tactic.Common

/-! # Runs of a machine

A machine takes one action after another, and an action may be disabled in a state.
A condition on the actions of a run is evaluated in the state before each of them.
-/

namespace VoxServer.Machine

variable {σ α : Type} (step : σ → α → Option σ)

/-- The state after the actions, if each of them was enabled. -/
def run : σ → List α → Option σ
  | s, [] => some s
  | s, a :: as => (step s a).bind (run · as)

def always (p : σ → α → Bool) : σ → List α → Bool
  | _, [] => true
  | s, a :: as => p s a && (step s a).all (always p · as)

theorem always_of_forall {p : σ → α → Bool} {as : List α} (h : ∀ a ∈ as, ∀ s, p s a) (s : σ) :
    always step p s as := by
  induction as generalizing s with
  | nil => rfl
  | cons a as ih =>
    have htail := ih fun b hb => h b (List.mem_cons_of_mem _ hb)
    simp [always, h a List.mem_cons_self s, htail]

/-- The invariant rule: what the actions that meet the condition keep, their runs keep. -/
theorem run_invariant {p : σ → α → Bool} {I : σ → Prop}
    (hstep : ∀ s a s', I s → p s a → step s a = some s' → I s') {as : List α} {s s' : σ} (h : I s)
    (hrun : run step s as = some s') (hp : always step p s as) : I s' := by
  induction as generalizing s with
  | nil =>
    cases hrun
    exact h
  | cons a as ih =>
    obtain ⟨s₁, ha, hrun⟩ := Option.bind_eq_some_iff.mp hrun
    simp only [always, ha, Option.all_some, Bool.and_eq_true] at hp
    exact ih (hstep s a s₁ h hp.1 ha) hrun hp.2

theorem run_mono {step step' : σ → α → Option σ}
    (hstep : ∀ s a s', step s a = some s' → step' s a = some s') {as : List α} {s s' : σ}
    (hrun : run step s as = some s') : run step' s as = some s' := by
  induction as generalizing s with
  | nil => exact hrun
  | cons a as ih =>
    obtain ⟨s₁, ha, hrun⟩ := Option.bind_eq_some_iff.mp hrun
    exact Option.bind_eq_some_iff.mpr ⟨s₁, hstep s a s₁ ha, ih hrun⟩

/-- Every state that the run comes through is good, the first and the last included. -/
def Throughout (G : σ → Prop) (s : σ) (as : List α) : Prop :=
  ∀ as', as' <+: as → ∀ s', run step s as' = some s' → G s'

section Throughout

variable {step} {G : σ → Prop} {s : σ}

theorem throughout_nil : Throughout step G s [] ↔ G s := by
  constructor
  · intro h
    exact h [] List.prefix_rfl s rfl
  · intro h as' has s' hrun
    obtain rfl := List.prefix_nil.mp has
    cases hrun
    exact h

theorem throughout_cons {a : α} {as : List α} : Throughout step G s (a :: as) ↔
    G s ∧ ∀ s₁, step s a = some s₁ → Throughout step G s₁ as := by
  constructor
  · intro h
    constructor
    · exact h [] (List.nil_prefix) s rfl
    · intro s₁ ha as' has s' hrun
      refine h (a :: as') (List.cons_prefix_cons.mpr ⟨rfl, has⟩) s' ?_
      simpa [run, ha] using hrun
  · rintro ⟨hs, h⟩ as' has s' hrun
    cases as' with
    | nil =>
      cases hrun
      exact hs
    | cons b as' =>
      obtain ⟨rfl, htail⟩ := List.cons_prefix_cons.mp has
      obtain ⟨s₁, ha, hrun⟩ := Option.bind_eq_some_iff.mp hrun
      exact h s₁ ha as' htail s' hrun

/-- Where the condition says of each action from a good state whether the next state is good, a run
is good throughout exactly if all its actions meet the condition. -/
theorem throughout_iff_always {p : σ → α → Bool} {I : σ → Prop} {q : α → Prop}
    (htotal : ∀ s a, (step s a).isSome)
    (hinv : ∀ s a s', q a → I s → step s a = some s' → I s')
    (hgood : ∀ s a s', q a → I s → G s → step s a = some s' → (G s' ↔ p s a)) {as : List α}
    (hq : ∀ a ∈ as, q a) (hI : I s) (hG : G s) :
    Throughout step G s as ↔ always step p s as := by
  induction as generalizing s with
  | nil => exact throughout_nil.trans (iff_of_true hG rfl)
  | cons a as ih =>
    obtain ⟨s₁, ha⟩ := Option.isSome_iff_exists.mp (htotal s a)
    have hqa := hq a List.mem_cons_self
    have hnext := hgood s a s₁ hqa hI hG ha
    have hrest := fun hG₁ => ih (fun b hb => hq b (List.mem_cons_of_mem _ hb))
      (hinv s a s₁ hqa hI ha) hG₁
    simp only [throughout_cons, hG, ha, always, true_and, Option.some.injEq, forall_eq',
      Option.all_some, Bool.and_eq_true, ← hnext]
    constructor
    · intro h
      have hG₁ := h [] List.nil_prefix s₁ rfl
      exact ⟨hG₁, (hrest hG₁).mp h⟩
    · rintro ⟨hG₁, h⟩
      exact (hrest hG₁).mpr h

end Throughout

end VoxServer.Machine
