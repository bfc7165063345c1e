import Mathlib.Logic.Relation
import VoxServer.Interleaving.Program
import VoxServer.Machine.Run

/-! # Handlers on a pool of threads

The threads of a pool take handlers that are ready, and run them. A handler is a program
that accesses a shared state, and between two of its accesses other threads access it
too. With one thread, nothing comes in between but what happens from outside.
-/

namespace VoxServer.Interleaving

/-- Accesses to a shared state, what can happen to it from outside, and the handlers. -/
structure Executor (C : Type) (R : C → Type) (σ H E : Type) where
  exec : (c : C) → σ → R c × σ
  env : E → σ → Option σ
  /-- The program of a handler that is ready, and the state once it has been taken. -/
  ready : H → σ → Option (Prog C R Unit × σ)

inductive Occurrence (C σ H E : Type)
  | input (e : E)
  | start (h : H)
  | access (c : C) (pre : σ)

/-- The shared state, and all that has happened. -/
structure World (C σ H E : Type) where
  state : σ
  log : List (Occurrence C σ H E) := []

/-- The handlers that have been started, with what is left of their programs. -/
structure Pool (C : Type) (R : C → Type) (σ H E : Type) extends World C σ H E where
  handlers : List (Prog C R Unit) := []

variable {C : Type} {R : C → Type} {σ H E : Type}

def Pool.Idle (x : Pool C R σ H E) : Prop := ∀ p ∈ x.handlers, p.result?.isSome

instance (x : Pool C R σ H E) : Decidable x.Idle :=
  inferInstanceAs (Decidable (∀ p ∈ x.handlers, p.result?.isSome))

namespace Executor

inductive Action (H E : Type)
  | input (e : E)
  | start (h : H)
  /-- The thread of a handler makes its next access. -/
  | access (k : ℕ)
  deriving DecidableEq, Repr

variable (S : Executor C R σ H E)

def input (w : World C σ H E) (e : E) : Option (World C σ H E) :=
  (S.env e w.state).map fun s => ⟨s, w.log ++ [.input e]⟩

def start (w : World C σ H E) (h : H) : Option (Prog C R Unit × World C σ H E) :=
  (S.ready h w.state).map fun p => (p.1, ⟨p.2, w.log ++ [.start h]⟩)

def access (w : World C σ H E) (c : C) : R c × World C σ H E :=
  ((S.exec c w.state).1, ⟨(S.exec c w.state).2, w.log ++ [.access c w.state]⟩)

/-- A step of a pool of `n` threads. -/
def step (n : ℕ) (x : Pool C R σ H E) : Action H E → Option (Pool C R σ H E)
  | .input e => (S.input x.toWorld e).map fun w => ⟨w, x.handlers⟩
  | .start h =>
    if x.handlers.countP (·.result?.isNone) < n then
      (S.start x.toWorld h).map fun p => ⟨p.2, x.handlers ++ [p.1]⟩
    else none
  | .access k =>
    match x.handlers[k]? with
    | some (.call c f) =>
      some ⟨(S.access x.toWorld c).2, x.handlers.set k (f (S.access x.toWorld c).1)⟩
    | _ => none

/-- The pool after the actions, from a state in which no handler has been started. -/
abbrev run (n : ℕ) (init : σ) (acts : List (Action H E)) : Option (Pool C R σ H E) :=
  Machine.run (S.step n) ⟨⟨init, []⟩, []⟩ acts

variable {S}

theorem step_start {n : ℕ} {x y : Pool C R σ H E} {h : H} (hstep : S.step n x (.start h) = some y) :
    x.handlers.countP (·.result?.isNone) < n ∧
      ∃ p w, S.start x.toWorld h = some (p, w) ∧ y = ⟨w, x.handlers ++ [p]⟩ := by
  simp only [step] at hstep
  split at hstep
  · rename_i hn
    obtain ⟨⟨p, w⟩, hs, rfl⟩ := Option.map_eq_some_iff.mp hstep
    exact ⟨hn, p, w, hs, rfl⟩
  · cases hstep

theorem step_access {n k : ℕ} {x y : Pool C R σ H E} (hstep : S.step n x (.access k) = some y) :
    ∃ c f, x.handlers[k]? = some (.call c f) ∧
      y = ⟨(S.access x.toWorld c).2, x.handlers.set k (f (S.access x.toWorld c).1)⟩ := by
  simp only [step] at hstep
  split at hstep
  · rename_i c f hk
    cases hstep
    exact ⟨c, f, hk, rfl⟩
  · cases hstep

theorem run_mono {n m : ℕ} (hnm : n ≤ m) {init : σ} {acts : List (Action H E)}
    {y : Pool C R σ H E} (hrun : S.run n init acts = some y) : S.run m init acts = some y := by
  refine Machine.run_mono (fun x a z hstep => ?_) hrun
  cases a with
  | input e => exact hstep
  | access k => exact hstep
  | start h =>
    obtain ⟨hn, p, w, hs, rfl⟩ := step_start hstep
    simp only [step, if_pos (Nat.lt_of_lt_of_le hn hnm), hs, Option.map_some]

section Rule

variable (S) (n : ℕ) (P : σ → C → Prop)

/-- What can come between two accesses of a handler, where other handlers make only the accesses
that `P` allows. -/
inductive Meanwhile : World C σ H E → World C σ H E → Prop
  | input {w w' : World C σ H E} {e : E} (h : S.input w e = some w') : Meanwhile w w'
  | start {w w' : World C σ H E} {h : H} {p : Prog C R Unit} (hn : 1 < n)
      (hs : S.start w h = some (p, w')) (hp : p.Only (P w'.state)) : Meanwhile w w'
  | access {w : World C σ H E} {c : C} (hn : 1 < n) (hc : P w.state c) :
      Meanwhile w (S.access w c).2

/-- Whatever comes in between, `B` holds before each access of the program, and `I` at its end. -/
def Leads (B I : World C σ H E → Prop) : Prog C R Unit → World C σ H E → Prop
  | .ret _, w => I w
  | .call c f, w => ∀ w', Relation.ReflTransGen (Meanwhile S n P) w w' →
      B w' ∧ Leads B I (f (S.access w' c).1) (S.access w' c).2

/-- How handlers keep `I`. They make only accesses that `P` allows, which keep it, or they lead to
it again, and then no second one of this kind can start. What `P` allows becomes more. -/
structure Keeps (B I : World C σ H E → Prop) : Prop where
  input : ∀ {w w' e}, I w → S.input w e = some w' → I w'
  access : ∀ {w c}, I w → P w.state c → I (S.access w c).2
  start : ∀ {w w' h p}, I w → S.start w h = some (p, w') →
    (I w' ∧ p.Only (P w'.state)) ∨ Leads S n P B I p w'
  alone : ∀ {w w' h p}, 1 < n → B w → S.start w h = some (p, w') → p.Only (P w'.state)
  grow_env : ∀ {e s s' c}, S.env e s = some s' → P s c → P s' c
  grow_ready : ∀ {h s p s' c}, S.ready h s = some (p, s') → P s c → P s' c
  grow_exec : ∀ {c' s c}, P s c → P (S.exec c' s).2 c

variable {S n P} {B I : World C σ H E → Prop} {w : World C σ H E}

/-- The rule of an access: `A` holds before it, and is not disturbed. -/
theorem leads_call {A : World C σ H E → Prop} {c : C} {f : R c → Prog C R Unit} (hw : A w)
    (hA : ∀ {w w'}, A w → Meanwhile S n P w w' → A w') (hB : ∀ {w}, A w → B w)
    (hf : ∀ w, A w → Leads S n P B I (f (S.access w c).1) (S.access w c).2) :
    Leads S n P B I (.call c f) w := by
  intro w' hmean
  have hw' : A w' := by
    induction hmean with
    | refl => exact hw
    | tail _ hstep ih => exact hA ih hstep
  exact ⟨hB hw', hf w' hw'⟩

/-- The rule of invariants: the program makes only accesses that keep `A`. -/
theorem leads_of_only {A : World C σ H E → Prop} {Q : C → Prop} {p : Prog C R Unit} (hp : p.Only Q)
    (hw : A w) (hA : ∀ {w w'}, A w → Meanwhile S n P w w' → A w') (hB : ∀ {w}, A w → B w)
    (hI : ∀ {w}, A w → I w) (hQ : ∀ {w c}, A w → Q c → A (S.access w c).2) :
    Leads S n P B I p w := by
  induction p generalizing w with
  | ret _ => exact hI hw
  | call c f ih => exact leads_call hw hA hB fun w hw => ih _ (hp.2 _) (hQ hw hp.1)

theorem Leads.meanwhile {c : C} {f : R c → Prog C R Unit} {w' : World C σ H E}
    (h : Leads S n P B I (.call c f) w) (hstep : Meanwhile S n P w w') :
    Leads S n P B I (.call c f) w' :=
  fun w₁ hmean => h w₁ (hmean.head hstep)

variable (S n P B I) in
/-- All handlers make only the accesses that `P` allows, or one of them leads back to `I`. -/
inductive Sound (x : Pool C R σ H E) : Prop
  | free (hI : I x.toWorld) (hP : ∀ p ∈ x.handlers, p.Only (P x.state)) : Sound x
  | busy {k : ℕ} {c : C} {f : R c → Prog C R Unit} (hk : x.handlers[k]? = some (.call c f))
      (hlead : Leads S n P B I (.call c f) x.toWorld)
      (hP : ∀ j p, j ≠ k → x.handlers[j]? = some p → p.Only (P x.state))
      (hn : 1 < n ∨ ∀ j p, j ≠ k → x.handlers[j]? = some p → p.result?.isSome) : Sound x

variable {x y : Pool C R σ H E}

theorem Sound.input {e : E} (hkeeps : Keeps S n P B I) (hx : Sound S n P B I x)
    (hstep : S.step n x (.input e) = some y) : Sound S n P B I y := by
  obtain ⟨w, hin, rfl⟩ := Option.map_eq_some_iff.mp hstep
  obtain ⟨s, hs, rfl⟩ := Option.map_eq_some_iff.mp hin
  have hgrow : ∀ p : Prog C R Unit, p.Only (P x.state) → p.Only (P s) :=
    fun p hp => hp.mono fun c => hkeeps.grow_env hs
  cases hx with
  | free hI hP => exact .free (hkeeps.input hI hin) fun p hp => hgrow p (hP p hp)
  | busy hk hlead hP hn =>
    exact .busy hk (hlead.meanwhile (.input hin)) (fun j p hj hp => hgrow p (hP j p hj hp)) hn

theorem getElem?_append_singleton {α : Type} {l : List α} {a b : α} {j : ℕ}
    (h : (l ++ [a])[j]? = some b) : l[j]? = some b ∨ j = l.length ∧ b = a := by
  rcases Nat.lt_or_ge j l.length with hj | hj
  · rw [List.getElem?_append_left hj] at h
    exact .inl h
  · rw [List.getElem?_append_right hj, List.getElem?_singleton] at h
    split at h
    · rename_i hz
      exact .inr ⟨by omega, (Option.some.inj h).symm⟩
    · cases h

theorem Sound.start {h : H} (hkeeps : Keeps S n P B I) (hx : Sound S n P B I x)
    (hstep : S.step n x (.start h) = some y) : Sound S n P B I y := by
  obtain ⟨hcount, p, w, hs, rfl⟩ := step_start hstep
  have hgrow : ∀ q : Prog C R Unit, q.Only (P x.state) → q.Only (P w.state) := by
    obtain ⟨⟨q, s⟩, hready, he⟩ := Option.map_eq_some_iff.mp hs
    cases he
    exact fun q hq => hq.mono fun c => hkeeps.grow_ready hready
  cases hx with
  | free hI hP =>
    have hold : ∀ q ∈ x.handlers, q.Only (P w.state) := fun q hq => hgrow q (hP q hq)
    rcases hkeeps.start hI hs with ⟨hI', hp⟩ | hlead
    · refine .free hI' fun q hq => ?_
      rcases List.mem_append.mp hq with hq | hq
      · exact hold q hq
      · rw [List.mem_singleton.mp hq]
        exact hp
    · cases p with
      | ret a =>
        refine .free hlead fun q hq => ?_
        rcases List.mem_append.mp hq with hq | hq
        · exact hold q hq
        · rw [List.mem_singleton.mp hq]
          exact Prog.only_ret _ _
      | call c f =>
        have hothers : ∀ j q, j ≠ x.handlers.length →
            (x.handlers ++ [.call c f])[j]? = some q → q ∈ x.handlers := fun j q hj hq =>
          List.mem_of_getElem? ((getElem?_append_singleton hq).resolve_right fun h => hj h.1)
        refine .busy List.getElem?_concat_length hlead
          (fun j q hj hq => hold q (hothers j q hj hq)) ?_
        -- with one thread, nothing else is under way
        by_cases hn : 1 < n
        · exact .inl hn
        · have hzero : x.handlers.countP (·.result?.isNone) = 0 := by omega
          refine .inr fun j q hj hq => ?_
          have hdone := List.countP_eq_zero.mp hzero q (hothers j q hj hq)
          rwa [Bool.not_eq_true, Option.isNone_eq_false_iff] at hdone
  | busy hk hlead hP hn =>
    have hpos : 0 < x.handlers.countP (·.result?.isNone) :=
      List.countP_pos_iff.mpr ⟨_, List.mem_of_getElem? hk, rfl⟩
    have hn : 1 < n := by omega
    have hp := hkeeps.alone hn (hlead _ .refl).1 hs
    refine .busy ((List.getElem?_append_left (List.getElem?_eq_some_iff.mp hk).1).trans hk)
      (hlead.meanwhile (.start hn hs hp)) (fun j q hj hq => ?_) (.inl hn)
    rcases getElem?_append_singleton hq with hq | ⟨-, rfl⟩
    · exact hgrow q (hP j q hj hq)
    · exact hp

theorem Sound.access {k : ℕ} (hkeeps : Keeps S n P B I) (hx : Sound S n P B I x)
    (hstep : S.step n x (.access k) = some y) : Sound S n P B I y := by
  obtain ⟨c, f, hk, rfl⟩ := step_access hstep
  have hgrow : ∀ q : Prog C R Unit, q.Only (P x.state) →
      q.Only (P (S.access x.toWorld c).2.state) :=
    fun q hq => hq.mono fun c' => hkeeps.grow_exec
  cases hx with
  | free hI hP =>
    have hcall := hP _ (List.mem_of_getElem? hk)
    refine .free (hkeeps.access hI hcall.1) fun q hq => hgrow q ?_
    rcases List.mem_or_eq_of_mem_set hq with hq | rfl
    · exact hP q hq
    · exact hcall.2 _
  | @busy k' c' f' hk' hlead hP hn =>
    have hset : ∀ j (q : Prog C R Unit), j ≠ k → ∀ p, (x.handlers.set k p)[j]? = some q →
        x.handlers[j]? = some q := by
      intro j q hj p hq
      rwa [List.getElem?_set_ne hj.symm] at hq
    have hlt : k < x.handlers.length := (List.getElem?_eq_some_iff.mp hk).1
    by_cases hkk : k = k'
    · subst hkk
      rw [hk] at hk'
      cases hk'
      have hnext := (hlead _ .refl).2
      cases hp : f (S.access x.toWorld c).1 with
      | ret a =>
        rw [hp] at hnext
        refine .free hnext fun q hq => hgrow q ?_
        obtain ⟨j, hj⟩ := List.mem_iff_getElem?.mp hq
        by_cases hjk : j = k
        · subst hjk
          rw [List.getElem?_set_self hlt] at hj
          cases hj
          exact Prog.only_ret _ _
        · exact hP j q hjk (hset j q hjk _ hj)
      | call c₁ f₁ =>
        rw [hp] at hnext
        exact .busy (List.getElem?_set_self hlt) hnext
          (fun j q hj hq => hgrow q (hP j q hj (hset j q hj _ hq)))
          (hn.imp_right fun hdone j q hj hq => hdone j q hj (hset j q hj _ hq))
    · have hn : 1 < n := by
        refine hn.resolve_right fun hdone => ?_
        have hret := hdone k _ hkk hk
        cases hret
      have hcall := hP k _ hkk hk
      refine .busy ((List.getElem?_set_ne hkk).trans hk')
        (hlead.meanwhile (.access hn hcall.1)) (fun j q hj hq => hgrow q ?_) (.inl hn)
      by_cases hjk : j = k
      · subst hjk
        rw [List.getElem?_set_self hlt] at hq
        cases hq
        exact hcall.2 _
      · exact hP j q hj (hset j q hjk _ hq)

/-- The rule of a single thread: every handler leads to `I` again, with none beside it. -/
theorem keeps_of_le_one (hn : n ≤ 1) (hinput : ∀ {w w' e}, I w → S.input w e = some w' → I w')
    (hstart : ∀ {w w' h p}, I w → S.start w h = some (p, w') →
      Leads S n (fun _ _ => False) B I p w') : Keeps S n (fun _ _ => False) B I where
  input := hinput
  access _ hc := hc.elim
  start hw hs := .inr (hstart hw hs)
  alone hlt := absurd hlt (Nat.not_lt.mpr hn)
  grow_env _ h := h
  grow_ready _ h := h
  grow_exec h := h

/-- The rule of handlers: in every run, `I` holds, or a handler is in the middle of its work and `B`
holds. -/
theorem Keeps.run (hkeeps : Keeps S n P B I) {init : σ} (h0 : I ⟨init, []⟩)
    {acts : List (Action H E)} (hrun : S.run n init acts = some y) :
    I y.toWorld ∨ ¬ y.Idle ∧ B y.toWorld := by
  have hsound : Sound S n P B I y := by
    refine Machine.run_invariant (S.step n) (p := fun _ _ => true) (I := Sound S n P B I)
      (fun x a z hx _ hstep => ?_) (.free h0 (by simp)) hrun
      (Machine.always_of_forall _ (by simp) _)
    cases a with
    | input e => exact hx.input hkeeps hstep
    | start h => exact hx.start hkeeps hstep
    | access k => exact hx.access hkeeps hstep
  cases hsound with
  | free hI => exact .inl hI
  | busy hk hlead =>
    refine .inr ⟨fun hidle => ?_, (hlead _ .refl).1⟩
    cases hidle _ (List.mem_of_getElem? hk)

end Rule

end Executor

end VoxServer.Interleaving
