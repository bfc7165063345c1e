import VoxServer.Interleaving.History

/-! # Specifications of programs under interference

Between two calls of a program others may change the state as they like, as long
as they keep a state invariant. A specification therefore speaks about the calls
that the program itself has made: each call meets a condition that depends on the
calls before it, and the result fits the calls that led to it.
-/

namespace VoxServer.Interleaving

variable {C : Type} {R : C → Type} {σ α β : Type}

namespace Prog

/-- After the calls `es`, in states that satisfy `J`: each further call of the program meets `K`
with the calls before it, and the result meets `Post` with all of them. -/
def Spec (exec : (c : C) → σ → R c × σ) (J : σ → Prop)
    (K : List (Event C σ) → Event C σ → Prop) (Post : List (Event C σ) → α → Prop) :
    Prog C R α → List (Event C σ) → Prop
  | ret a, es => Post es a
  | call c k, es => ∀ i s, J s → K es ⟨i, c, s⟩ ∧
      (k (exec c s).1).Spec exec J K Post (es ++ [⟨i, c, s⟩])

variable {exec : (c : C) → σ → R c × σ} {J : σ → Prop}
  {K : List (Event C σ) → Event C σ → Prop} {es : List (Event C σ)}

@[simp] theorem spec_ret {Post : List (Event C σ) → α → Prop} {a : α} :
    (ret a : Prog C R α).Spec exec J K Post es ↔ Post es a := Iff.rfl

theorem spec_perform_bind {Post : List (Event C σ) → β → Prop} {c : C} {f : R c → Prog C R β} :
    (perform c >>= f).Spec exec J K Post es ↔ ∀ i s, J s → K es ⟨i, c, s⟩ ∧
      (f (exec c s).1).Spec exec J K Post (es ++ [⟨i, c, s⟩]) := Iff.rfl

theorem Spec.bind {Mid : List (Event C σ) → α → Prop} {Post : List (Event C σ) → β → Prop}
    {p : Prog C R α} {f : α → Prog C R β} (hp : p.Spec exec J K Mid es)
    (hf : ∀ es a, Mid es a → (f a).Spec exec J K Post es) : (p >>= f).Spec exec J K Post es := by
  induction p generalizing es with
  | ret a => exact hf es a hp
  | call c k ih =>
    intro i s hs
    obtain ⟨hK, hk⟩ := hp i s hs
    exact ⟨hK, ih _ hk⟩

theorem Spec.mono {Post Post' : List (Event C σ) → α → Prop} {p : Prog C R α}
    (hp : p.Spec exec J K Post es) (h : ∀ es a, Post es a → Post' es a) :
    p.Spec exec J K Post' es := by
  induction p generalizing es with
  | ret a => exact h es a hp
  | call c k ih =>
    intro i s hs
    obtain ⟨hK, hk⟩ := hp i s hs
    exact ⟨hK, ih _ hk⟩

/-- The rule of invariants: a program that makes only calls which keep `I` ends with `I`. -/
theorem Only.spec {P : C → Prop} {I : List (Event C σ) → Prop} {p : Prog C R α} (hp : p.Only P)
    (hI : ∀ es i c s, P c → I es → K es ⟨i, c, s⟩ ∧ I (es ++ [⟨i, c, s⟩])) (h : I es) :
    p.Spec exec J K (fun es _ => I es) es := by
  induction p generalizing es with
  | ret a => exact h
  | call c k ih =>
    intro i s _
    obtain ⟨hK, hI'⟩ := hI es i c s hp.1 h
    exact ⟨hK, ih _ (hp.2 _) hI'⟩

/-- The rule of locality: a program that is specified by its own calls is specified after others. -/
theorem Spec.frame {K' : List (Event C σ) → Event C σ → Prop} {Post : List (Event C σ) → α → Prop}
    {p : Prog C R α} (hp : p.Spec exec J K' Post es) (es₀ : List (Event C σ))
    (hK : ∀ es ev, K' es ev → K (es₀ ++ es) ev) :
    p.Spec exec J K (fun es' a => ∃ es, es' = es₀ ++ es ∧ Post es a) (es₀ ++ es) := by
  induction p generalizing es with
  | ret a => exact ⟨es, rfl, hp⟩
  | call c k ih =>
    intro i s hs
    obtain ⟨hcall, hk⟩ := hp i s hs
    refine ⟨hK es _ hcall, ?_⟩
    rw [List.append_assoc]
    exact ih _ hk

/-- The calls that a program has made meet its specification, and so does what is left. -/
theorem Spec.follows {Post : List (Event C σ) → α → Prop} {p q : Prog C R α}
    {es' : List (Event C σ)} (hp : p.Spec exec J K Post es) (h : Follows exec p es' q)
    (hJ : ∀ ev ∈ es', J ev.pre) :
    AlwaysFrom K es es' ∧ q.Spec exec J K Post (es ++ es') := by
  induction h generalizing es with
  | nil p => simpa [AlwaysFrom] using hp
  | @cons i c k s es' q _ ih =>
    obtain ⟨hs, hJ⟩ := List.forall_mem_cons.mp hJ
    obtain ⟨hK, hk⟩ := hp i s hs
    obtain ⟨ha, hq⟩ := ih hk hJ
    exact ⟨⟨hK, ha⟩, by simpa using hq⟩

end Prog

variable {Op : Type} {Res : Op → Type} {E : Type}

/-- In a run, the calls of each operation meet its specification, and so does its result. -/
theorem System.spec_run (S : System C R σ Op Res E) {J : σ → Prop}
    {K : List (Event C σ) → Event C σ → Prop} {init : σ} {acts : List (Action Op E)}
    (hJ : ∀ ev ∈ (S.run init acts).trace, J ev.pre) {i : ℕ} {t : Thread C R Op Res}
    (ht : (S.run init acts).threads[i]? = some t)
    {Post : List (Event C σ) → Res t.op → Prop}
    (hspec : (S.code t.op).Spec S.exec J K Post []) :
    Always K (localTrace i (S.run init acts).trace) ∧
      t.prog.Spec S.exec J K Post (localTrace i (S.run init acts).trace) := by
  have hf := (S.coherent_run init acts).follows i t ht
  exact hspec.follows hf fun ev hev => hJ ev (mem_of_mem_localTrace hev).1

/-- If all operations of a run are specified, the calls of each one meet the condition. -/
theorem System.always_spec (S : System C R σ Op Res E) {J : σ → Prop}
    {K : List (Event C σ) → Event C σ → Prop} {init : σ} {acts : List (Action Op E)}
    (hJ : ∀ ev ∈ (S.run init acts).trace, J ev.pre)
    (hspec : ∀ o, .spawn o ∈ acts → (S.code o).Spec S.exec J K (fun _ _ => True) []) (i : ℕ) :
    Always K (localTrace i (S.run init acts).trace) := by
  cases ht : (S.run init acts).threads[i]? with
  | some t =>
    exact (S.spec_run hJ ht (hspec t.op (S.op_spawned (List.mem_of_getElem? ht)))).1
  | none =>
    have hlt := (S.coherent_run init acts).tid_lt
    have hnil : localTrace i (S.run init acts).trace = [] :=
      System.localTrace_eq_nil fun ev hev =>
        Nat.lt_of_lt_of_le (hlt ev hev) (List.getElem?_eq_none_iff.mp ht)
    rw [hnil]
    exact always_nil

/-- If each operation of a run meets a specification of its own, each call of the trace meets
that of the operation that makes it. -/
theorem System.always_owner (S : System C R σ Op Res E) {J : σ → Prop}
    {K : Op → List (Event C σ) → Event C σ → Prop} {init : σ} {acts : List (Action Op E)}
    (hJ : ∀ ev ∈ (S.run init acts).trace, J ev.pre)
    (hspec : ∀ o, .spawn o ∈ acts → (S.code o).Spec S.exec J (K o) (fun _ _ => True) []) :
    Always (fun tr ev => ∃ t, (S.run init acts).threads[ev.tid]? = some t ∧
      K t.op (localTrace ev.tid tr) ev) (S.run init acts).trace := by
  refine always_of_forall fun tr₁ ev tr₂ he => ?_
  have hlt : ev.tid < (S.run init acts).threads.length :=
    (S.coherent_run init acts).tid_lt ev (by rw [he]; simp)
  have ht := List.getElem?_eq_getElem hlt
  refine ⟨_, ht, ?_⟩
  have halways := (S.spec_run hJ ht (hspec _ (S.op_spawned (List.mem_of_getElem? ht)))).1
  rw [he] at halways
  simp only [localTrace, List.filter_append, List.filter_cons, decide_true, if_true] at halways
  exact halways.at

/-- What holds along each operation's own calls holds at each call of the trace. -/
theorem always_local {K : List (Event C σ) → Event C σ → Prop} {tr : List (Event C σ)}
    (h : ∀ i, Always K (localTrace i tr)) :
    Always (fun tr ev => K (localTrace ev.tid tr) ev) tr := by
  refine always_of_forall fun tr₁ ev tr₂ he => ?_
  have hi := h ev.tid
  rw [he] at hi
  simp only [localTrace, List.filter_append, List.filter_cons, decide_true, if_true] at hi
  exact hi.at

end VoxServer.Interleaving
