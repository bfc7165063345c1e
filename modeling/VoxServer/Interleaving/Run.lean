import Mathlib.Data.List.Induction
import VoxServer.Interleaving.Program

/-! # Interleaved runs

Any number of operations run against one shared state. A step starts an
operation, lets one running operation make its next call, or changes the state
from outside (a clock, for instance). The trace of a run keeps every call in
order; each operation's own calls are a run of its program.
-/

namespace VoxServer.Interleaving

open Prog

/-- Atomic calls, the programs of the operations, and what happens from outside. -/
structure System (C : Type) (R : C → Type) (σ Op : Type) (Res : Op → Type) (E : Type) where
  exec : (c : C) → σ → R c × σ
  code : (o : Op) → Prog C R (Res o)
  env : E → σ → σ

/-- An operation in progress (or finished, when its program is a result). -/
structure Thread (C : Type) (R : C → Type) (Op : Type) (Res : Op → Type) where
  op : Op
  prog : Prog C R (Res op)

structure Config (C : Type) (R : C → Type) (σ Op : Type) (Res : Op → Type) where
  state : σ
  threads : List (Thread C R Op Res)
  trace : List (Event C σ)

inductive Action (Op E : Type) where
  | spawn (o : Op)
  | run (i : ℕ)
  | env (e : E)

variable {C : Type} {R : C → Type} {σ Op : Type} {Res : Op → Type} {E : Type}

def localTrace (i : ℕ) (tr : List (Event C σ)) : List (Event C σ) := tr.filter (·.tid = i)

theorem localTrace_eq_append_cons {i : ℕ} {tr es₁ es₂ : List (Event C σ)} {ev : Event C σ}
    (h : localTrace i tr = es₁ ++ ev :: es₂) : ev.tid = i ∧
      ∃ tr₁ tr₂, tr = tr₁ ++ ev :: tr₂ ∧ localTrace i tr₁ = es₁ ∧ localTrace i tr₂ = es₂ := by
  obtain ⟨l₁, l, rfl, h₁, h⟩ := List.filter_eq_append_iff.mp h
  obtain ⟨l₂, l₃, rfl, hno, hev, h₃⟩ := List.filter_eq_cons_iff.mp h
  refine ⟨by simpa using hev, l₁ ++ l₂, l₃, by simp, ?_, h₃⟩
  rw [localTrace, List.filter_append, h₁, List.filter_eq_nil_iff.mpr hno, List.append_nil]

theorem localTrace_subset_append (i : ℕ) (tr tr' : List (Event C σ)) :
    localTrace i tr ⊆ localTrace i (tr ++ tr') := by
  rw [localTrace, localTrace, List.filter_append]
  exact List.subset_append_left _ _

theorem mem_of_mem_localTrace {i : ℕ} {tr : List (Event C σ)} {ev : Event C σ}
    (h : ev ∈ localTrace i tr) : ev ∈ tr ∧ ev.tid = i := by
  simpa [localTrace] using h

namespace System

variable (S : System C R σ Op Res E)

def reply (ev : Event C σ) : R ev.call := (S.exec ev.call ev.pre).1

def post (ev : Event C σ) : σ := (S.exec ev.call ev.pre).2

/-- An action that is not possible (a finished or unknown operation) changes nothing. -/
def step (cfg : Config C R σ Op Res) : Action Op E → Config C R σ Op Res
  | .spawn o => { cfg with threads := cfg.threads ++ [⟨o, S.code o⟩] }
  | .run i =>
    match cfg.threads[i]? with
    | some ⟨o, .call c k⟩ =>
      { state := (S.exec c cfg.state).2
        threads := cfg.threads.set i ⟨o, k (S.exec c cfg.state).1⟩
        trace := cfg.trace ++ [⟨i, c, cfg.state⟩] }
    | _ => cfg
  | .env e => { cfg with state := S.env e cfg.state }

/-- The configuration after a sequence of actions, from a state with nothing running. -/
def run (init : σ) (acts : List (Action Op E)) : Config C R σ Op Res :=
  acts.foldl S.step ⟨init, [], []⟩

@[simp] theorem run_nil (init : σ) : S.run init [] = ⟨init, [], []⟩ := rfl

@[simp] theorem run_snoc (init : σ) (acts : List (Action Op E)) (a : Action Op E) :
    S.run init (acts ++ [a]) = S.step (S.run init acts) a := by
  simp [run]

theorem step_cases (cfg : Config C R σ Op Res) (a : Action Op E) :
    S.step cfg a = cfg ∨
    (∃ o, a = .spawn o ∧ S.step cfg a = { cfg with threads := cfg.threads ++ [⟨o, S.code o⟩] }) ∨
    (∃ i o c k, cfg.threads[i]? = some ⟨o, .call c k⟩ ∧ S.step cfg a =
      { state := (S.exec c cfg.state).2
        threads := cfg.threads.set i ⟨o, k (S.exec c cfg.state).1⟩
        trace := cfg.trace ++ [⟨i, c, cfg.state⟩] }) ∨
    (∃ e, a = .env e ∧ S.step cfg a = { cfg with state := S.env e cfg.state }) := by
  cases a with
  | spawn o => exact .inr (.inl ⟨o, rfl, rfl⟩)
  | run i =>
    rcases h : cfg.threads[i]? with _ | ⟨o, _ | ⟨c, k⟩⟩
    · left; simp only [step, h]
    · left; simp only [step, h]
    · exact .inr (.inr (.inl ⟨i, o, c, k, h, by simp only [step, h]⟩))
  | env e => exact .inr (.inr (.inr ⟨e, rfl, rfl⟩))

/-- Each operation has come to where its own calls of the trace lead. -/
structure Coherent (cfg : Config C R σ Op Res) : Prop where
  follows : ∀ i t, cfg.threads[i]? = some t →
    Follows S.exec (S.code t.op) (localTrace i cfg.trace) t.prog
  tid_lt : ∀ ev ∈ cfg.trace, ev.tid < cfg.threads.length

theorem localTrace_eq_nil {i : ℕ} {tr : List (Event C σ)} (h : ∀ ev ∈ tr, ev.tid < i) :
    localTrace i tr = [] := by
  simp only [localTrace, List.filter_eq_nil_iff, decide_eq_true_eq]
  intro ev hev he
  exact absurd (h ev hev) (by omega)

theorem Coherent.spawn {cfg : Config C R σ Op Res} (h : S.Coherent cfg) (o : Op) :
    S.Coherent { cfg with threads := cfg.threads ++ [⟨o, S.code o⟩] } := by
  constructor
  · intro i t ht
    rcases Nat.lt_or_ge i cfg.threads.length with hi | hi
    · exact h.follows i t (by simpa [List.getElem?_append_left hi] using ht)
    · rw [List.getElem?_append_right hi] at ht
      obtain ⟨h0, rfl⟩ : i - cfg.threads.length = 0 ∧ t = ⟨o, S.code o⟩ := by
        rcases hk : i - cfg.threads.length with _ | n
        · simp only [hk, List.getElem?_cons_zero, Option.some.injEq] at ht
          exact ⟨rfl, ht.symm⟩
        · simp [hk] at ht
      rw [localTrace_eq_nil fun ev hev => Nat.lt_of_lt_of_le (h.tid_lt ev hev) hi]
      exact .nil _
  · intro ev hev
    rw [List.length_append]
    exact Nat.lt_add_right _ (h.tid_lt ev hev)

theorem Coherent.call {cfg : Config C R σ Op Res} (h : S.Coherent cfg) {i : ℕ} {o : Op} {c : C}
    {k : R c → Prog C R (Res o)} (hi : cfg.threads[i]? = some ⟨o, .call c k⟩) :
    S.Coherent { state := (S.exec c cfg.state).2
                 threads := cfg.threads.set i ⟨o, k (S.exec c cfg.state).1⟩
                 trace := cfg.trace ++ [⟨i, c, cfg.state⟩] } := by
  obtain ⟨hlt, -⟩ := List.getElem?_eq_some_iff.mp hi
  constructor
  · intro j t ht
    by_cases hj : i = j
    · subst hj
      simp only [List.getElem?_set_self hlt, Option.some.injEq] at ht
      subst ht
      simpa [localTrace] using (h.follows i _ hi).snoc i cfg.state
    · rw [List.getElem?_set_ne hj] at ht
      simpa [localTrace, hj] using h.follows j t ht
  · intro ev hev
    rcases List.mem_append.mp hev with hev | hev
    · simpa using h.tid_lt ev hev
    · obtain rfl := List.mem_singleton.mp hev
      simpa using hlt

theorem Coherent.step {cfg : Config C R σ Op Res} (h : S.Coherent cfg) (a : Action Op E) :
    S.Coherent (S.step cfg a) := by
  rcases S.step_cases cfg a with he | ⟨o, -, he⟩ | ⟨i, o, c, k, hi, he⟩ | ⟨e, -, he⟩
  · rwa [he]
  · rw [he]; exact h.spawn S o
  · rw [he]; exact h.call S hi
  · rw [he]; exact ⟨h.follows, h.tid_lt⟩

theorem coherent_run (init : σ) (acts : List (Action Op E)) : S.Coherent (S.run init acts) := by
  induction acts using List.reverseRecOn with
  | nil => exact ⟨by simp, by simp⟩
  | append_singleton acts a ih => rw [run_snoc]; exact ih.step S a

/-- The invariant rule: what starting, calling and outside changes preserve holds in every run. -/
theorem run_invariant {I : Config C R σ Op Res → Prop} {P : Op → Prop} {init : σ}
    (h0 : I ⟨init, [], []⟩)
    (hspawn : ∀ cfg o, P o → S.Coherent cfg → I cfg →
      I { cfg with threads := cfg.threads ++ [⟨o, S.code o⟩] })
    (hcall : ∀ cfg i o c k, S.Coherent cfg → I cfg → cfg.threads[i]? = some ⟨o, .call c k⟩ →
      I { state := (S.exec c cfg.state).2
          threads := cfg.threads.set i ⟨o, k (S.exec c cfg.state).1⟩
          trace := cfg.trace ++ [⟨i, c, cfg.state⟩] })
    (henv : ∀ cfg e, S.Coherent cfg → I cfg → I { cfg with state := S.env e cfg.state })
    (acts : List (Action Op E)) (hacts : ∀ o, .spawn o ∈ acts → P o) : I (S.run init acts) := by
  induction acts using List.reverseRecOn with
  | nil => exact h0
  | append_singleton acts a ih =>
    have hI := ih fun o ho => hacts o (List.mem_append_left _ ho)
    have hc := S.coherent_run init acts
    rw [run_snoc]
    rcases S.step_cases (S.run init acts) a with he | ⟨o, rfl, he⟩ | ⟨i, o, c, k, hi, he⟩ |
      ⟨e, -, he⟩
    · rwa [he]
    · rw [he]; exact hspawn _ o (hacts o (by simp)) hc hI
    · rw [he]; exact hcall _ i o c k hc hI hi
    · rw [he]; exact henv _ e hc hI

theorem op_spawned {init : σ} {acts : List (Action Op E)} {t : Thread C R Op Res}
    (ht : t ∈ (S.run init acts).threads) : .spawn t.op ∈ acts := by
  refine S.run_invariant (I := fun cfg => ∀ t ∈ cfg.threads, .spawn t.op ∈ acts)
    (P := fun o => .spawn o ∈ acts) (by simp) ?_ ?_ ?_ acts (fun o ho => ho) t ht
  · intro cfg o ho _ hI t ht
    rcases List.mem_append.mp ht with ht | ht
    · exact hI t ht
    · obtain rfl := List.mem_singleton.mp ht; exact ho
  · intro cfg i o c k _ hI hi t ht
    rcases List.mem_or_eq_of_mem_set ht with ht | rfl
    · exact hI t ht
    · exact hI ⟨o, .call c k⟩ (List.mem_of_getElem? hi)
  · intro cfg e _ hI; exact hI

/-- The invariant rule for properties of the trace and the state alone. -/
theorem trace_invariant {I : List (Event C σ) → σ → Prop} {P : C → Prop} {init : σ}
    (h0 : I [] init)
    (hcall : ∀ tr s i c, P c → I tr s → I (tr ++ [⟨i, c, s⟩]) (S.exec c s).2)
    (henv : ∀ tr s e, I tr s → I tr (S.env e s))
    (acts : List (Action Op E)) (hacts : ∀ o, .spawn o ∈ acts → (S.code o).Only P) :
    I (S.run init acts).trace (S.run init acts).state := by
  refine (S.run_invariant (P := fun o => (S.code o).Only P)
    (I := fun cfg => I cfg.trace cfg.state ∧ ∀ t ∈ cfg.threads, (S.code t.op).Only P)
    ⟨h0, by simp⟩ ?_ ?_ ?_ acts hacts).1
  · rintro cfg o ho - ⟨hI, ht⟩
    refine ⟨hI, fun t hm => ?_⟩
    rcases List.mem_append.mp hm with hm | hm
    · exact ht t hm
    · obtain rfl := List.mem_singleton.mp hm; exact ho
  · rintro cfg i o c k hc ⟨hI, ht⟩ hi
    have ho := ht _ (List.mem_of_getElem? hi)
    refine ⟨hcall _ _ _ _ ((hc.follows i _ hi).only ho).1 hI, fun t hm => ?_⟩
    rcases List.mem_or_eq_of_mem_set hm with hm | rfl
    · exact ht t hm
    · exact ho
  · rintro cfg e - ⟨hI, ht⟩
    exact ⟨henv _ _ _ hI, ht⟩

/-- The invariant rule for properties of the state alone, which then hold before every call. -/
theorem state_invariant {J : σ → Prop} {P : C → Prop} {init : σ} (h0 : J init)
    (hcall : ∀ c s, P c → J s → J (S.exec c s).2) (henv : ∀ e s, J s → J (S.env e s))
    (acts : List (Action Op E)) (hacts : ∀ o, .spawn o ∈ acts → (S.code o).Only P) :
    J (S.run init acts).state ∧ ∀ ev ∈ (S.run init acts).trace, J ev.pre := by
  refine S.trace_invariant (I := fun tr s => J s ∧ ∀ ev ∈ tr, J ev.pre) (P := P)
    ⟨h0, by simp⟩ ?_ ?_ acts hacts
  · rintro tr s i c hc ⟨hs, htr⟩
    refine ⟨hcall c s hc hs, fun ev hev => ?_⟩
    rcases List.mem_append.mp hev with hev | hev
    · exact htr ev hev
    · obtain rfl := List.mem_singleton.mp hev; exact hs
  · rintro tr s e ⟨hs, htr⟩
    exact ⟨henv e s hs, htr⟩

end System

end VoxServer.Interleaving
