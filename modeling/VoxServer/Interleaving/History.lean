import VoxServer.Interleaving.Run

/-! # Conditions on histories

A condition that every step meets, given the steps before it: the form in which a
protocol of the callers, or an assumption about the schedule, is stated. And what
holds since a step: it was made, and nothing after it has undone it.
-/

namespace VoxServer.Interleaving

variable {α : Type*} {P Q : List α → α → Prop}

/-- Each element meets `P` with the elements before it, which start with `pre`. -/
def AlwaysFrom (P : List α → α → Prop) (pre : List α) : List α → Prop
  | [] => True
  | a :: l => P pre a ∧ AlwaysFrom P (pre ++ [a]) l

/-- Each element meets `P` with the elements before it. -/
def Always (P : List α → α → Prop) (l : List α) : Prop := AlwaysFrom P [] l

instance AlwaysFrom.decidable [∀ l a, Decidable (P l a)] (pre : List α) :
    ∀ l, Decidable (AlwaysFrom P pre l)
  | [] => isTrue trivial
  | a :: l => @instDecidableAnd _ _ _ (AlwaysFrom.decidable (pre ++ [a]) l)

instance [∀ l a, Decidable (P l a)] (l : List α) : Decidable (Always P l) :=
  AlwaysFrom.decidable [] l

theorem alwaysFrom_append {pre l m : List α} :
    AlwaysFrom P pre (l ++ m) ↔ AlwaysFrom P pre l ∧ AlwaysFrom P (pre ++ l) m := by
  induction l generalizing pre with
  | nil => simp [AlwaysFrom]
  | cons a l ih => simp [AlwaysFrom, ih, and_assoc]

@[simp] theorem always_nil : Always P [] := trivial

@[simp] theorem always_snoc {l : List α} {a : α} :
    Always P (l ++ [a]) ↔ Always P l ∧ P l a := by
  rw [Always, alwaysFrom_append]
  simp [AlwaysFrom, Always]

theorem Always.of_append {l m : List α} (h : Always P (l ++ m)) : Always P l :=
  (alwaysFrom_append.mp h).1

theorem Always.at {l m : List α} {a : α} (h : Always P (l ++ a :: m)) : P l a :=
  (alwaysFrom_append.mp h).2.1

theorem Always.getElem? {l : List α} {k : ℕ} {a : α} (h : Always P l) (ha : l[k]? = some a) :
    P (l.take k) a := by
  obtain ⟨hk, rfl⟩ := List.getElem?_eq_some_iff.mp ha
  rw [← List.take_append_drop k l, List.drop_eq_getElem_cons hk] at h
  exact h.at

theorem snoc_eq_append_cons {l l₁ l₂ : List α} {a b : α} (h : l ++ [a] = l₁ ++ b :: l₂) :
    (l = l₁ ∧ a = b ∧ l₂ = []) ∨ ∃ m, l₂ = m ++ [a] ∧ l = l₁ ++ b :: m := by
  rcases List.eq_nil_or_concat l₂ with rfl | ⟨m, d, rfl⟩
  · obtain ⟨rfl, rfl⟩ := List.append_singleton_inj.mp h
    exact .inl ⟨rfl, rfl, rfl⟩
  · rw [List.concat_eq_append, ← List.cons_append, ← List.append_assoc] at h
    obtain ⟨rfl, rfl⟩ := List.append_singleton_inj.mp h
    exact .inr ⟨m, by simp, rfl⟩

theorem always_of_forall {l : List α} (h : ∀ l₁ a l₂, l = l₁ ++ a :: l₂ → P l₁ a) :
    Always P l := by
  induction l using List.reverseRecOn with
  | nil => exact always_nil
  | append_singleton l a ih =>
    refine always_snoc.mpr ⟨ih fun l₁ b l₂ he => h l₁ b (l₂ ++ [a]) ?_, h l a [] rfl⟩
    rw [he, List.append_assoc, List.cons_append]

theorem always_of_mem {p : α → Prop} {l : List α} (h : ∀ a ∈ l, p a) : Always (fun _ a => p a) l :=
  always_of_forall fun l₁ a l₂ he => h a (by simp [he])

theorem Always.imp {l : List α} (hP : Always P l) (h : ∀ l a, P l a → Q l a) : Always Q l :=
  always_of_forall fun l₁ a _ he => h l₁ a (he ▸ hP).at

theorem Always.and {l : List α} (hP : Always P l) (hQ : Always Q l) :
    Always (fun l a => P l a ∧ Q l a) l :=
  always_of_forall fun _ _ _ he => ⟨(he ▸ hP).at, (he ▸ hQ).at⟩

theorem Always.of_ne {l : List α} {a b : α} (h : Always P l) (ha : a ∈ l) (hb : b ∈ l)
    (hne : a ≠ b) : (∃ m, a ∈ m ∧ P m b) ∨ ∃ m, b ∈ m ∧ P m a := by
  obtain ⟨l₁, l₂, rfl⟩ := List.append_of_mem hb
  simp only [List.mem_append, List.mem_cons, hne, false_or] at ha
  rcases ha with ha | ha
  · exact .inl ⟨l₁, ha, h.at⟩
  · obtain ⟨m₁, m₂, rfl⟩ := List.append_of_mem ha
    rw [← List.cons_append, ← List.append_assoc] at h
    exact .inr ⟨l₁ ++ b :: m₁, by simp, h.at⟩

theorem getLast?_filter_eq_some {p : α → Bool} {l : List α} {a : α}
    (h : (l.filter p).getLast? = some a) :
    ∃ l₁ l₂, l = l₁ ++ a :: l₂ ∧ p a ∧ ∀ b ∈ l₂, ¬ p b := by
  obtain ⟨ys, hys⟩ := List.getLast?_eq_some_iff.mp h
  obtain ⟨l₁, l₂, rfl, -, h₂⟩ := List.filter_eq_append_iff.mp hys
  obtain ⟨m₁, m₂, rfl, -, hp, hm⟩ := List.filter_eq_cons_iff.mp h₂
  exact ⟨l₁ ++ m₁, m₂, by simp, hp, List.filter_eq_nil_iff.mp hm⟩

theorem getLast?_filterMap {β : Type*} (f : α → Option β) (l : List α) :
    (l.filterMap f).getLast? = (l.filter fun a => (f a).isSome).getLast?.bind f := by
  induction l using List.reverseRecOn with
  | nil => rfl
  | append_singleton l a ih => cases h : f a <;> simp [List.filterMap_append, h, ih]

section Invariant

variable {C : Type} {R : C → Type} {σ Op : Type} {Res : Op → Type} {E : Type}

/-- The invariant rule for runs whose calls meet a condition: what such calls and outside changes
preserve holds at the end and before every call. -/
theorem System.always_invariant (S : System C R σ Op Res E) {I : List (Event C σ) → σ → Prop}
    {Q : List (Event C σ) → Event C σ → Prop} {init : σ} {acts : List (Action Op E)}
    (hQ : Always Q (S.run init acts).trace) (h0 : I [] init)
    (hcall : ∀ tr s i c, Q tr ⟨i, c, s⟩ → I tr s → I (tr ++ [⟨i, c, s⟩]) (S.exec c s).2)
    (henv : ∀ tr s e, I tr s → I tr (S.env e s)) :
    I (S.run init acts).trace (S.run init acts).state ∧
      Always (fun tr ev => I tr ev.pre) (S.run init acts).trace := by
  revert hQ
  refine S.trace_invariant (P := fun _ => True) (I := fun tr s => Always Q tr →
    I tr s ∧ Always (fun tr ev => I tr ev.pre) tr) (fun _ => ⟨h0, always_nil⟩) ?_ ?_ acts
    (fun o _ => (S.code o).only_true)
  · intro tr s i c _ ih hQ
    obtain ⟨hQ, hc⟩ := always_snoc.mp hQ
    obtain ⟨hI, htr⟩ := ih hQ
    exact ⟨hcall tr s i c hc hI, always_snoc.mpr ⟨htr, hI⟩⟩
  · intro tr s e ih hQ
    obtain ⟨hI, htr⟩ := ih hQ
    exact ⟨henv tr s e hI, htr⟩

/-- The invariant rule for stretches of a run: what is true of no calls, and stays true when a call
or an outside change comes after it, is true of the calls from any one up to a later one. -/
theorem System.stretch_invariant (S : System C R σ Op Res E)
    {D : List (Event C σ) → σ → σ → Prop} {J : Event C σ → Prop} {init : σ}
    {acts : List (Action Op E)} (hJ : ∀ ev ∈ (S.run init acts).trace, J ev)
    (h0 : ∀ s, D [] s s)
    (hcall : ∀ es s ev, J ev → D es s ev.pre → D (es ++ [ev]) s (S.exec ev.call ev.pre).2)
    (henv : ∀ es s s' e, D es s s' → D es s (S.env e s')) :
    Always (fun tr ev => ∀ l₁ a l₂, tr = l₁ ++ a :: l₂ → D (a :: l₂) a.pre ev.pre)
      (S.run init acts).trace := by
  refine (S.always_invariant (always_of_mem hJ)
    (I := fun tr s => ∀ l₁ a l₂, tr = l₁ ++ a :: l₂ → D (a :: l₂) a.pre s) (by simp) ?_ ?_).2
  · intro tr s i c hs ih l₁ a l₂ he
    rcases snoc_eq_append_cons he with ⟨rfl, rfl, rfl⟩ | ⟨m, rfl, rfl⟩
    · exact hcall [] s _ hs (h0 s)
    · exact hcall (a :: m) a.pre _ hs (ih l₁ a m rfl)
  · intro tr s e ih l₁ a l₂ he
    exact henv _ _ _ e (ih l₁ a l₂ he)

/-- A value that, of the calls of a run, only those with `w` change is the same before two calls if
from the first to the second there is no such call. -/
theorem System.eq_of_unwritten (S : System C R σ Op Res E) {β : Type*} {v : σ → β}
    {w J : Event C σ → Prop} {init : σ} {acts : List (Action Op E)}
    (hJ : ∀ ev ∈ (S.run init acts).trace, J ev)
    (hcall : ∀ ev, J ev → ¬ w ev → v (S.exec ev.call ev.pre).2 = v ev.pre)
    (henv : ∀ e s, v (S.env e s) = v s) :
    Always (fun tr ev => ∀ l₁ a l₂, tr = l₁ ++ a :: l₂ → (∀ b ∈ a :: l₂, ¬ w b) →
      v ev.pre = v a.pre) (S.run init acts).trace := by
  apply S.stretch_invariant (D := fun es s s' => (∀ b ∈ es, ¬ w b) → v s' = v s) hJ
  · intro s _
    rfl
  · intro es s ev hev ih hw
    refine (hcall ev hev (hw ev (by simp))).trans (ih fun b hb => ?_)
    exact hw b (List.mem_append_left _ hb)
  · intro es s s' e ih hw
    rw [henv]
    exact ih hw

end Invariant

/-- Some element satisfies `q`, and one before it satisfies `p`. -/
def After (p q : α → Prop) (l : List α) : Prop :=
  ∃ l₁ b l₂, l = l₁ ++ b :: l₂ ∧ (∃ a ∈ l₁, p a) ∧ q b

section After

variable {p q : α → Prop} {l m : List α} {a : α}

theorem After.append (h : After p q l) (m : List α) : After p q (l ++ m) := by
  obtain ⟨l₁, b, l₂, rfl, hp, hq⟩ := h
  exact ⟨l₁, b, l₂ ++ m, by simp, hp, hq⟩

theorem after_snoc : After p q (l ++ [a]) ↔ After p q l ∨ ((∃ b ∈ l, p b) ∧ q a) := by
  constructor
  · rintro ⟨l₁, b, l₂, he, hp, hq⟩
    rcases snoc_eq_append_cons he with ⟨rfl, rfl, -⟩ | ⟨m, -, rfl⟩
    · exact .inr ⟨hp, hq⟩
    · exact .inl ⟨l₁, b, m, rfl, hp, hq⟩
  · rintro (h | ⟨hp, hq⟩)
    · exact h.append [a]
    · exact ⟨l, a, [], rfl, hp, hq⟩

theorem After.exists_mem (h : After p q l) : (∃ a ∈ l, p a) ∧ ∃ b ∈ l, q b := by
  obtain ⟨l₁, b, l₂, rfl, ⟨a, ha, hp⟩, hq⟩ := h
  exact ⟨⟨a, List.mem_append_left _ ha, hp⟩, b, by simp, hq⟩

theorem not_after_iff : ¬ After p q l ↔ Always (fun l b => (∃ a ∈ l, p a) → ¬ q b) l := by
  constructor
  · exact fun h => always_of_forall fun l₁ b l₂ he hp hq => h ⟨l₁, b, l₂, he, hp, hq⟩
  · rintro h ⟨l₁, b, l₂, rfl, hp, hq⟩
    exact h.at hp hq

/-- An order among the calls of one operation is one among the calls of the trace. -/
theorem after_of_localTrace {C σ : Type} {p q : Event C σ → Prop} {i : ℕ}
    {tr : List (Event C σ)} (h : After p q (localTrace i tr)) :
    After (fun ev => ev.tid = i ∧ p ev) q tr := by
  obtain ⟨es₁, b, es₂, he, ⟨a, ha, hp⟩, hq⟩ := h
  obtain ⟨-, tr₁, tr₂, rfl, rfl, -⟩ := localTrace_eq_append_cons he
  obtain ⟨hmem, htid⟩ := mem_of_mem_localTrace ha
  exact ⟨tr₁, b, tr₂, rfl, ⟨a, hmem, htid, hp⟩, hq⟩

end After

/-- Some element satisfies `p`, and none after it satisfies `q`. -/
def Since (p q : α → Prop) (l : List α) : Prop :=
  ∃ l₁ a l₂, l = l₁ ++ a :: l₂ ∧ p a ∧ ∀ b ∈ l₂, ¬ q b

section Since

variable {p q : α → Prop} {l : List α} {a : α}

@[simp] theorem not_since_nil : ¬ Since p q [] := by
  rintro ⟨l₁, a, l₂, h, -⟩
  simp at h

theorem since_cons : Since p q (a :: l) ↔ (p a ∧ ∀ b ∈ l, ¬ q b) ∨ Since p q l := by
  constructor
  · rintro ⟨_ | ⟨c, l₁⟩, b, l₂, h, hp, hq⟩
    · obtain ⟨rfl, rfl⟩ := List.cons.inj h
      exact .inl ⟨hp, hq⟩
    · exact .inr ⟨l₁, b, l₂, (List.cons.inj h).2, hp, hq⟩
  · rintro (⟨hp, hq⟩ | ⟨l₁, b, l₂, rfl, hp, hq⟩)
    · exact ⟨[], a, l, rfl, hp, hq⟩
    · exact ⟨a :: l₁, b, l₂, rfl, hp, hq⟩

instance Since.decidable [DecidablePred p] [DecidablePred q] : ∀ l, Decidable (Since p q l)
  | [] => isFalse not_since_nil
  | _ :: l => @decidable_of_decidable_of_iff _ _
      (@instDecidableOr _ _ _ (Since.decidable l)) since_cons.symm

@[simp] theorem since_snoc : Since p q (l ++ [a]) ↔ p a ∨ (Since p q l ∧ ¬ q a) := by
  induction l with
  | nil => simp [since_cons]
  | cons b l ih =>
    rw [List.cons_append, since_cons, since_cons, ih]
    simp only [List.mem_append, List.mem_singleton, or_imp, forall_and, forall_eq]
    tauto

end Since

end VoxServer.Interleaving
