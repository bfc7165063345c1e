import VoxServer.Interleaving.Run
import VoxServer.Machine.Run

/-! # Operations one at a time

Each operation runs to its end before the next one starts. The history keeps the
operations with their results. What one program does alone is proved from its first
call to its last, by rules for the calls and for sequencing, and so is that it cannot
tell two states apart; what every operation keeps, a sequence of them keeps.
-/

namespace VoxServer.Interleaving

namespace Prog

variable {C : Type} {R : C → Type} {σ α β : Type} {exec : (c : C) → σ → R c × σ} {s : σ}

/-- Run alone from the state, the program ends with a result and a state that meet `Q`. -/
def Ends (exec : (c : C) → σ → R c × σ) (Q : α → σ → Prop) (p : Prog C R α) (s : σ) : Prop :=
  Q (p.run exec s).1 (p.run exec s).2

@[simp] theorem ends_ret {Q : α → σ → Prop} {a : α} :
    (ret a : Prog C R α).Ends exec Q s ↔ Q a s := Iff.rfl

theorem ends_perform_bind {Q : β → σ → Prop} {c : C} {f : R c → Prog C R β} :
    (perform c >>= f).Ends exec Q s ↔ (f (exec c s).1).Ends exec Q (exec c s).2 := Iff.rfl

theorem ends_bind {Q : β → σ → Prop} {p : Prog C R α} {f : α → Prog C R β} :
    (p >>= f).Ends exec Q s ↔ p.Ends exec (fun a s' => (f a).Ends exec Q s') s := by
  unfold Ends
  rw [run_bind]

theorem Ends.bind {Q : β → σ → Prop} {p : Prog C R α} {f : α → Prog C R β}
    (h : p.Ends exec (fun a s' => (f a).Ends exec Q s') s) : (p >>= f).Ends exec Q s :=
  ends_bind.mpr h

theorem Ends.mono {Q Q' : α → σ → Prop} {p : Prog C R α} (h : p.Ends exec Q s)
    (hQ : ∀ a s', Q a s' → Q' a s') : p.Ends exec Q' s := hQ _ _ h

theorem Ends.and {Q Q' : α → σ → Prop} {p : Prog C R α} (h : p.Ends exec Q s)
    (h' : p.Ends exec Q' s) : p.Ends exec (fun a s' => Q a s' ∧ Q' a s') s := ⟨h, h'⟩

/-- What each call of the program keeps, the program keeps. -/
theorem Only.ends {P : C → Prop} {I : σ → Prop} {p : Prog C R α} (hp : p.Only P)
    (hI : ∀ c s, P c → I s → I (exec c s).2) (h : I s) : p.Ends exec (fun _ => I) s := by
  induction p generalizing s with
  | ret a => exact h
  | call c k ih => exact ih _ (hp.2 _) (hI c s hp.1 h)

section Agrees

variable {J K : σ → σ → Prop} {s₁ s₂ : σ}

/-- Run alone from either state, the program has the same result, and the states that it leaves are
related. -/
def Agrees (exec : (c : C) → σ → R c × σ) (J : σ → σ → Prop) (p : Prog C R α) (s₁ s₂ : σ) : Prop :=
  (p.run exec s₁).1 = (p.run exec s₂).1 ∧ J (p.run exec s₁).2 (p.run exec s₂).2

theorem agrees_ret {a : α} (h : J s₁ s₂) : (ret a : Prog C R α).Agrees exec J s₁ s₂ := ⟨rfl, h⟩

theorem Agrees.perform_bind {c : C} {f : R c → Prog C R β} (h : (exec c s₁).1 = (exec c s₂).1)
    (hf : (f (exec c s₁).1).Agrees exec J (exec c s₁).2 (exec c s₂).2) :
    (perform c >>= f).Agrees exec J s₁ s₂ := by
  unfold Agrees at hf ⊢
  simp only [Prog.perform_bind, run_call]
  rwa [← h]

theorem Agrees.bind {p : Prog C R α} {f : α → Prog C R β} (hp : p.Agrees exec J s₁ s₂)
    (hf : ∀ a t₁ t₂, J t₁ t₂ → (f a).Agrees exec K t₁ t₂) : (p >>= f).Agrees exec K s₁ s₂ := by
  unfold Agrees
  simp only [run_bind, ← hp.1]
  exact hf _ _ _ hp.2

end Agrees

end Prog

/-- An operation that has returned. -/
structure Done (Op : Type) (Res : Op → Type) where
  op : Op
  res : Res op

namespace Prog

variable {C : Type} {R : C → Type} {σ α β : Type} {exec : (c : C) → σ → R c × σ} {s : σ}

/-- The calls that the program makes when it runs alone, with their replies. -/
def trace (exec : (c : C) → σ → R c × σ) : Prog C R α → σ → List (Done C R)
  | ret _, _ => []
  | call c k, s => ⟨c, (exec c s).1⟩ :: (k (exec c s).1).trace exec (exec c s).2

@[simp] theorem trace_ret (a : α) : (ret a : Prog C R α).trace exec s = [] := rfl

@[simp] theorem trace_perform_bind (c : C) (f : R c → Prog C R β) : (perform c >>= f).trace exec s =
    ⟨c, (exec c s).1⟩ :: (f (exec c s).1).trace exec (exec c s).2 := rfl

end Prog

section Replies

variable {C : Type} {R : C → Type} {σ τ : Type} {exec : (c : C) → σ → R c × σ}
  {spec : (c : C) → τ → R c × τ} {I : σ → Prop} {P : C → Prop}

/-- The calls with their replies, each made in the state that the one before has left. -/
def replies (exec : (c : C) → σ → R c × σ) : σ → List C → List (Done C R)
  | _, [] => []
  | s, c :: cs => ⟨c, (exec c s).1⟩ :: replies exec (exec c s).2 cs

/-- An object that its own calls treat as `spec` says and that no other call touches answers as it
would alone. -/
theorem filter_replies (view : σ → τ) (own : C → Prop) [DecidablePred own]
    (hI : ∀ c s, P c → I s → I (exec c s).2)
    (hown : ∀ c s, P c → I s → own c →
      (exec c s).1 = (spec c (view s)).1 ∧ view (exec c s).2 = (spec c (view s)).2)
    (hother : ∀ c s, P c → I s → ¬ own c → view (exec c s).2 = view s)
    {cs : List C} (hcs : ∀ c ∈ cs, P c) {s : σ} (hs : I s) :
    (replies exec s cs).filter (own ·.op) = replies spec (view s) (cs.filter own) := by
  induction cs generalizing s with
  | nil => rfl
  | cons c cs ih =>
    have hc := hcs c List.mem_cons_self
    have hrest := ih (fun c' hc' => hcs c' (List.mem_cons_of_mem _ hc')) (hI c s hc hs)
    rw [replies]
    by_cases h : own c
    · obtain ⟨hreply, hview⟩ := hown c s hc hs h
      rw [List.filter_cons_of_pos (by simpa using h), List.filter_cons_of_pos (by simpa using h),
        replies, hrest, hview, hreply]
    · rw [List.filter_cons_of_neg (by simpa using h), List.filter_cons_of_neg (by simpa using h),
        hrest, hother c s hc hs h]

end Replies

namespace System

variable {C : Type} {R : C → Type} {σ Op : Type} {Res : Op → Type} {E : Type}
  (S : System C R σ Op Res E)

def perform (p : List (Done Op Res) × σ) (o : Op) : List (Done Op Res) × σ :=
  (p.1 ++ [⟨o, ((S.code o).run S.exec p.2).1⟩], ((S.code o).run S.exec p.2).2)

def performAll (init : σ) (ops : List Op) : List (Done Op Res) × σ := ops.foldl S.perform ([], init)

@[simp] theorem performAll_snoc (init : σ) (ops : List Op) (o : Op) :
    S.performAll init (ops ++ [o]) = S.perform (S.performAll init ops) o := by
  simp [performAll]

theorem map_op_performAll (init : σ) (ops : List Op) :
    (S.performAll init ops).1.map Done.op = ops := by
  induction ops using List.reverseRecOn with
  | nil => rfl
  | append_singleton ops o ih => simp [perform, ih]

theorem history_invariant {I : List (Done Op Res) → σ → Prop} {P : Op → Prop} {init : σ}
    (h0 : I [] init)
    (hop : ∀ hist s o, P o → I hist s →
      I (hist ++ [⟨o, ((S.code o).run S.exec s).1⟩]) ((S.code o).run S.exec s).2)
    (ops : List Op) (hops : ∀ o ∈ ops, P o) :
    I (S.performAll init ops).1 (S.performAll init ops).2 := by
  induction ops using List.reverseRecOn with
  | nil => exact h0
  | append_singleton ops o ih =>
    rw [performAll_snoc]
    exact hop _ _ o (hops o (by simp)) (ih fun o ho => hops o (by simp [ho]))

/-- The history and the state after one more operation, or a change from outside. -/
def record (p : List (Done Op Res) × σ) : Op ⊕ E → List (Done Op Res) × σ
  | .inl o => S.perform p o
  | .inr e => (p.1, S.env e p.2)

def recordAll (init : σ) (acts : List (Op ⊕ E)) : List (Done Op Res) × σ :=
  acts.foldl S.record ([], init)

/-- The invariant rule for histories with changes from outside. -/
theorem record_invariant {I : List (Done Op Res) → σ → Prop} {P : Op → Prop} {init : σ}
    (h0 : I [] init)
    (hop : ∀ hist s o, P o → I hist s →
      I (hist ++ [⟨o, ((S.code o).run S.exec s).1⟩]) ((S.code o).run S.exec s).2)
    (henv : ∀ hist s e, I hist s → I hist (S.env e s))
    (acts : List (Op ⊕ E)) (hops : ∀ o, .inl o ∈ acts → P o) :
    I (S.recordAll init acts).1 (S.recordAll init acts).2 := by
  induction acts using List.reverseRecOn with
  | nil => exact h0
  | append_singleton acts a ih =>
    have hI := ih fun o ho => hops o (by simp [ho])
    simp only [recordAll, List.foldl_append, List.foldl_cons, List.foldl_nil] at hI ⊢
    cases a with
    | inl o => exact hop _ _ o (hops o (by simp)) hI
    | inr e => exact henv _ _ e hI

def next (s : σ) : Op ⊕ E → σ
  | .inl o => ((S.code o).run S.exec s).2
  | .inr e => S.env e s

/-- The state after operations, one at a time, and changes from outside. -/
def after (s : σ) (acts : List (Op ⊕ E)) : σ := acts.foldl S.next s

theorem after_append (s : σ) (acts acts' : List (Op ⊕ E)) :
    S.after s (acts ++ acts') = S.after (S.after s acts) acts' := List.foldl_append

/-- The invariant rule for sequences of operations and changes from outside. -/
theorem after_invariant {I : σ → Prop} {P : Op → Prop}
    (hop : ∀ s o, P o → I s → (S.code o).Ends S.exec (fun _ => I) s)
    (henv : ∀ s e, I s → I (S.env e s)) {acts : List (Op ⊕ E)} (hops : ∀ o, .inl o ∈ acts → P o)
    {s : σ} (h : I s) : I (S.after s acts) := by
  induction acts generalizing s with
  | nil => exact h
  | cons a acts ih =>
    refine ih (fun o ho => hops o (List.mem_cons_of_mem _ ho)) ?_
    cases a with
    | inl o => exact hop s o (hops o List.mem_cons_self) h
    | inr e => exact henv s e h

/-- One operation from start to end, or a change from outside. -/
def atOnce (s : σ) : Op ⊕ E → Option σ
  | .inl o => some ((S.code o).run S.exec s).2
  | .inr e => some (S.env e s)

/-- The invariant rule for sequences of operations that meet a condition. -/
theorem atOnce_invariant {p : σ → Op ⊕ E → Bool} {I : σ → Prop}
    (hop : ∀ s o, I s → p s (.inl o) → (S.code o).Ends S.exec (fun _ => I) s)
    (henv : ∀ s e, I s → I (S.env e s)) {acts : List (Op ⊕ E)} {init s : σ} (h0 : I init)
    (hrun : Machine.run S.atOnce init acts = some s)
    (hp : Machine.always S.atOnce p init acts) : I s := by
  refine Machine.run_invariant S.atOnce (fun s a s' hs ha hstep => ?_) h0 hrun hp
  cases a with
  | inl o => cases hstep; exact hop s o hs ha
  | inr e => cases hstep; exact henv s e hs

/-- Where the condition says of each operation from a good state whether it ends in one, a sequence
is good throughout exactly if all its operations meet the condition. -/
theorem atOnce_throughout_iff {p : σ → Op ⊕ E → Bool} {I G : σ → Prop} {P : Op → Prop}
    (hop : ∀ s o, P o → I s → (S.code o).Ends S.exec (fun _ => I) s)
    (henv : ∀ s e, I s → I (S.env e s))
    (hgood : ∀ s o, P o → I s → G s →
      (S.code o).Ends S.exec (fun _ s' => (G s' ↔ p s (.inl o))) s)
    (hgoodEnv : ∀ s e, I s → G s → (G (S.env e s) ↔ p s (.inr e))) {acts : List (Op ⊕ E)}
    {init : σ} (hops : ∀ o, .inl o ∈ acts → P o) (hI : I init) (hG : G init) :
    Machine.Throughout S.atOnce G init acts ↔ Machine.always S.atOnce p init acts := by
  refine Machine.throughout_iff_always (I := I) (q := fun a => ∀ o, a = .inl o → P o)
    ?_ ?_ ?_ ?_ hI hG
  · intro s a
    cases a with
    | inl o => rfl
    | inr e => rfl
  · intro s a s' ha hs hstep
    cases a with
    | inl o => cases hstep; exact hop s o (ha o rfl) hs
    | inr e => cases hstep; exact henv s e hs
  · intro s a s' ha hs hg hstep
    cases a with
    | inl o => cases hstep; exact hgood s o (ha o rfl) hs hg
    | inr e => cases hstep; exact hgoodEnv s e hs hg
  · rintro a ha o rfl
    exact hops o ha

end System

end VoxServer.Interleaving
