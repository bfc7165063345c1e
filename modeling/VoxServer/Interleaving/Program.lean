import Mathlib.Tactic.Common

/-! # Programs of atomic calls

A program is a result, or one atomic call followed by a program that depends on
the reply. Running a program alone gives its sequential meaning; `Follows`
records which residual program is left after a sequence of calls that may have
been made in states changed by others in between.
-/

namespace VoxServer.Interleaving

/-- A result, or one atomic call and a continuation for its reply. -/
inductive Prog (C : Type) (R : C → Type) (α : Type) where
  | ret (a : α)
  | call (c : C) (k : R c → Prog C R α)

/-- One atomic call of a run: who made it and in which state. -/
structure Event (C σ : Type) where
  tid : ℕ
  call : C
  pre : σ

namespace Prog

variable {C : Type} {R : C → Type} {σ α β : Type}

def bind : Prog C R α → (α → Prog C R β) → Prog C R β
  | ret a, f => f a
  | call c k, f => call c fun r => (k r).bind f

instance : Monad (Prog C R) where
  pure := ret
  bind := bind

/-- Make one call and return its reply. -/
def perform (c : C) : Prog C R (R c) := call c ret

@[simp] theorem pure_eq_ret (a : α) : (pure a : Prog C R α) = ret a := rfl

@[simp] theorem ret_bind (a : α) (f : α → Prog C R β) : (ret a : Prog C R α) >>= f = f a := rfl

@[simp] theorem call_bind (c : C) (k : R c → Prog C R α) (f : α → Prog C R β) :
    call c k >>= f = call c fun r => k r >>= f := rfl

@[simp] theorem perform_bind (c : C) (f : R c → Prog C R β) :
    (perform c : Prog C R (R c)) >>= f = call c f := rfl

@[simp] theorem bind_ret (p : Prog C R α) : p >>= ret = p := by
  induction p with
  | ret a => rfl
  | call c k ih => simp only [call_bind, ih]

def result? : Prog C R α → Option α
  | ret a => some a
  | call _ _ => none

theorem eq_ret_of_isSome_result? {p : Prog C R α} (h : p.result?.isSome) : ∃ a, p = ret a := by
  cases p with
  | ret a => exact ⟨a, rfl⟩
  | call c k => cases h

/-- The sequential meaning: no other program runs in between. -/
def run (exec : (c : C) → σ → R c × σ) : Prog C R α → σ → α × σ
  | ret a, s => (a, s)
  | call c k, s => (k (exec c s).1).run exec (exec c s).2

@[simp] theorem run_ret (exec : (c : C) → σ → R c × σ) (a : α) (s : σ) :
    (ret a : Prog C R α).run exec s = (a, s) := rfl

@[simp] theorem run_call (exec : (c : C) → σ → R c × σ) (c : C) (k : R c → Prog C R α) (s : σ) :
    (call c k).run exec s = (k (exec c s).1).run exec (exec c s).2 := rfl

theorem run_bind (exec : (c : C) → σ → R c × σ) (p : Prog C R α) (f : α → Prog C R β) (s : σ) :
    (p >>= f).run exec s = (f (p.run exec s).1).run exec (p.run exec s).2 := by
  induction p generalizing s with
  | ret a => rfl
  | call c k ih => exact ih _ _

/-- Every call that the program can make satisfies `P`. -/
def Only (P : C → Prop) : Prog C R α → Prop
  | ret _ => True
  | call c k => P c ∧ ∀ r, (k r).Only P

@[simp] theorem only_ret (P : C → Prop) (a : α) : (ret a : Prog C R α).Only P := trivial

@[simp] theorem only_call {P : C → Prop} {c : C} {k : R c → Prog C R α} :
    (call c k).Only P ↔ P c ∧ ∀ r, (k r).Only P := Iff.rfl

theorem only_true (p : Prog C R α) : p.Only fun _ => True := by
  induction p with
  | ret a => trivial
  | call c k ih => exact ⟨trivial, ih⟩

theorem Only.bind {P : C → Prop} {p : Prog C R α} {f : α → Prog C R β}
    (hp : p.Only P) (hf : ∀ a, (f a).Only P) : (p >>= f).Only P := by
  induction p with
  | ret a => exact hf a
  | call c k ih => exact ⟨hp.1, fun r => ih r (hp.2 r)⟩

theorem Only.mono {P Q : C → Prop} (hPQ : ∀ c, P c → Q c) {p : Prog C R α}
    (hp : p.Only P) : p.Only Q := by
  induction p with
  | ret a => trivial
  | call c k ih => exact ⟨hPQ c hp.1, fun r => ih r (hp.2 r)⟩

/-- Every result that the program can end with satisfies `P`. -/
def Returns (P : α → Prop) : Prog C R α → Prop
  | ret a => P a
  | call _ k => ∀ r, (k r).Returns P

@[simp] theorem returns_ret {P : α → Prop} {a : α} : (ret a : Prog C R α).Returns P ↔ P a := Iff.rfl

theorem returns_perform_bind {P : β → Prop} {c : C} {f : R c → Prog C R β} :
    (perform c >>= f).Returns P ↔ ∀ r, (f r).Returns P := Iff.rfl

theorem Returns.bind {P : β → Prop} {p : Prog C R α} {f : α → Prog C R β}
    (hf : ∀ a, (f a).Returns P) : (p >>= f).Returns P := by
  induction p with
  | ret a => exact hf a
  | call c k ih => exact fun r => ih r

theorem Returns.run {P : α → Prop} {p : Prog C R α} (h : p.Returns P)
    (exec : (c : C) → σ → R c × σ) (s : σ) : P (p.run exec s).1 := by
  induction p generalizing s with
  | ret a => exact h
  | call c k ih => exact ih _ (h _) _

/-- The program `p`, having made the calls of `es`, has come to `q`. -/
inductive Follows (exec : (c : C) → σ → R c × σ) :
    Prog C R α → List (Event C σ) → Prog C R α → Prop
  | nil (p : Prog C R α) : Follows exec p [] p
  | cons {i : ℕ} {c : C} {k : R c → Prog C R α} {s : σ} {es : List (Event C σ)}
      {q : Prog C R α} : Follows exec (k (exec c s).1) es q →
      Follows exec (call c k) (⟨i, c, s⟩ :: es) q

variable {exec : (c : C) → σ → R c × σ} {es : List (Event C σ)}

theorem Follows.snoc {p : Prog C R α} {c : C} {k : R c → Prog C R α}
    (h : Follows exec p es (call c k)) (i : ℕ) (s : σ) :
    Follows exec p (es ++ [⟨i, c, s⟩]) (k (exec c s).1) := by
  generalize hq : call c k = q at h
  induction h with
  | nil p => subst hq; exact .cons (.nil _)
  | cons _ ih => exact .cons (ih hq)

@[simp] theorem follows_ret {a : α} {q : Prog C R α} :
    Follows exec (ret a) es q ↔ es = [] ∧ q = ret a := by
  constructor
  · rintro ⟨⟩; exact ⟨rfl, rfl⟩
  · rintro ⟨rfl, rfl⟩; exact .nil _

theorem follows_call {c : C} {k : R c → Prog C R α} {q : Prog C R α} :
    Follows exec (call c k) es q ↔ (es = [] ∧ q = call c k) ∨
      ∃ i s es', es = ⟨i, c, s⟩ :: es' ∧ Follows exec (k (exec c s).1) es' q := by
  constructor
  · rintro (_ | h)
    · exact .inl ⟨rfl, rfl⟩
    · exact .inr ⟨_, _, _, rfl, h⟩
  · rintro (⟨rfl, rfl⟩ | ⟨i, s, es', rfl, h⟩)
    · exact .nil _
    · exact .cons h

theorem follows_call_ret {c : C} {k : R c → Prog C R α} {a : α} :
    Follows exec (call c k) es (ret a) ↔
      ∃ i s es', es = ⟨i, c, s⟩ :: es' ∧ Follows exec (k (exec c s).1) es' (ret a) := by
  rw [follows_call]
  simp

theorem Follows.only {P : C → Prop} {p q : Prog C R α} (h : Follows exec p es q)
    (hp : p.Only P) : q.Only P := by
  induction h with
  | nil p => exact hp
  | cons _ ih => exact ih (hp.2 _)

theorem Follows.calls {P : C → Prop} {p q : Prog C R α} (h : Follows exec p es q)
    (hp : p.Only P) : ∀ ev ∈ es, P ev.call := by
  induction h with
  | nil p => simp
  | cons _ ih => exact List.forall_mem_cons.mpr ⟨hp.1, ih (hp.2 _)⟩

end Prog

end VoxServer.Interleaving
