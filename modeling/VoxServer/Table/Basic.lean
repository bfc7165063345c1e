import Mathlib.Data.List.Nodup
import Mathlib.Data.List.Count

/-! # Tables with unique keys

A table is the list of its rows in row order. Updates and deletions act on the
rows that satisfy a condition; a key is unique when no two rows share it.
-/

namespace VoxServer.Table

variable {ρ κ : Type*}

/-- No two rows of the table share the key. -/
def UniqueOn (key : ρ → κ) (rows : List ρ) : Prop := (rows.map key).Nodup

/-- The table after `f` replaces each row that satisfies `p`. -/
def updateWhere (p : ρ → Bool) (f : ρ → ρ) (rows : List ρ) : List ρ :=
  rows.map fun r => if p r then f r else r

/-- The table without the rows that satisfy `p`. -/
def deleteWhere (p : ρ → Bool) (rows : List ρ) : List ρ := rows.filter fun r => !p r

/-- Every row refers to a row of the parent table. -/
def References {π : Type*} (fk : ρ → κ) (pk : π → κ) (rows : List ρ) (parents : List π) : Prop :=
  ∀ r ∈ rows, ∃ q ∈ parents, pk q = fk r

instance [DecidableEq κ] (key : ρ → κ) (rows : List ρ) : Decidable (UniqueOn key rows) :=
  inferInstanceAs (Decidable (rows.map key).Nodup)

instance [DecidableEq κ] {π : Type*} (fk : ρ → κ) (pk : π → κ) (rows : List ρ)
    (parents : List π) : Decidable (References fk pk rows parents) :=
  inferInstanceAs (Decidable (∀ r ∈ rows, ∃ q ∈ parents, pk q = fk r))

theorem eraseDups_eq_self [DecidableEq κ] {keys : List κ} (h : keys.Nodup) :
    keys.eraseDups = keys := by
  induction keys with
  | nil => rfl
  | cons k keys ih =>
    obtain ⟨hk, h⟩ := List.nodup_cons.mp h
    have hfilter : keys.filter (fun b => !b == k) = keys := by
      rw [List.filter_eq_self]
      intro b hb
      have hne : b ≠ k := ne_of_mem_of_not_mem hb hk
      simp [hne]
    rw [List.eraseDups_cons, hfilter, ih h]

section

variable {key : ρ → κ} {p : ρ → Bool} {f : ρ → ρ} {rows : List ρ} {r r' : ρ}

theorem mem_updateWhere :
    r ∈ updateWhere p f rows ↔ ∃ r₀ ∈ rows, (if p r₀ then f r₀ else r₀) = r := by
  simp [updateWhere]

@[simp] theorem mem_deleteWhere : r ∈ deleteWhere p rows ↔ r ∈ rows ∧ ¬ p r := by
  simp [deleteWhere]

theorem countP_deleteWhere (p q : ρ → Bool) (rows : List ρ) :
    (deleteWhere p rows).countP q + rows.countP (fun r => p r && q r) = rows.countP q := by
  rw [deleteWhere, List.countP_filter]
  induction rows with
  | nil => rfl
  | cons r rows ih =>
    simp only [List.countP_cons]
    cases p r <;> cases q r <;> simp <;> omega

@[simp] theorem updateWhere_append (rows' : List ρ) :
    updateWhere p f (rows ++ rows') = updateWhere p f rows ++ updateWhere p f rows' := by
  simp [updateWhere]

theorem updateWhere_eq_self (h : ∀ r ∈ rows, ¬ p r) : updateWhere p f rows = rows := by
  conv_rhs => rw [← List.map_id rows]
  exact List.map_congr_left fun r hr => by simp [h r hr]

theorem map_updateWhere {β : Type*} {g : ρ → β} (h : ∀ r, g (f r) = g r) :
    (updateWhere p f rows).map g = rows.map g := by
  rw [updateWhere, List.map_map]
  exact List.map_congr_left fun r _ => by simp only [Function.comp_apply]; split <;> simp [h]

theorem exists_key_updateWhere {k : κ} (h : ∀ r, key (f r) = key r) :
    (∃ r ∈ updateWhere p f rows, key r = k) ↔ ∃ r ∈ rows, key r = k := by
  rw [← List.mem_map, ← List.mem_map, map_updateWhere h]

theorem exists_updateWhere_iff [DecidableEq κ] {k k' : κ} {P : ρ → Prop}
    (hf : ∀ r, key (f r) = key r) :
    (∃ r ∈ updateWhere (fun r => key r = k) f rows, key r = k' ∧ P r) ↔
      if k' = k then ∃ r ∈ rows, key r = k ∧ P (f r) else ∃ r ∈ rows, key r = k' ∧ P r := by
  have hrow : ∀ r, (key (if key r = k then f r else r) = k' ∧ P (if key r = k then f r else r)) ↔
      key r = k' ∧ if k' = k then P (f r) else P r := by
    intro r
    by_cases hk : key r = k
    · subst hk
      rw [if_pos rfl, hf]
      refine and_congr_right fun hk' => ?_
      rw [if_pos hk'.symm]
    · rw [if_neg hk]
      refine and_congr_right fun hk' => ?_
      rw [if_neg (hk' ▸ hk)]
  simp only [updateWhere, List.mem_map, exists_exists_and_eq_and, decide_eq_true_eq, hrow]
  split
  · rename_i hkey
    rw [hkey]
  · rfl

/-- An upsert updates the rows under its key or, if there are none, inserts a row: it shows under
its key only. -/
theorem exists_upsert_iff [DecidableEq κ] {k k' : κ} {row : ρ} {rows' : List ρ} {P : ρ → Prop}
    (hrows : (∃ r ∈ rows, key r = k) ∧ rows' = updateWhere (fun r => key r = k) f rows ∨
      (∀ r ∈ rows, key r ≠ k) ∧ rows' = rows ++ [row])
    (hf : ∀ r, key (f r) = key r) (hrow : key row = k) (hP : ∀ r, P (f r) ↔ P row) :
    (∃ r ∈ rows', key r = k' ∧ P r) ↔
      if k' = k then P row else ∃ r ∈ rows, key r = k' ∧ P r := by
  rcases hrows with ⟨⟨r₀, hr₀, hk₀⟩, rfl⟩ | ⟨hnone, rfl⟩
  · rw [exists_updateWhere_iff hf]
    have hrow : (∃ r ∈ rows, key r = k ∧ P (f r)) ↔ P row := by
      constructor
      · rintro ⟨r, -, -, h⟩
        exact (hP r).mp h
      · exact fun h => ⟨r₀, hr₀, hk₀, (hP r₀).mpr h⟩
    rw [hrow]
  · simp only [List.mem_append, List.mem_singleton]
    split
    · rename_i hkey
      subst hkey
      constructor
      · rintro ⟨r, hr | rfl, hk, h⟩
        · exact absurd hk (hnone r hr)
        · exact h
      · exact fun h => ⟨row, .inr rfl, hrow, h⟩
    · rename_i hkey
      constructor
      · rintro ⟨r, hr | rfl, hk, h⟩
        · exact ⟨r, hr, hk, h⟩
        · exact absurd (hk.symm.trans hrow) hkey
      · rintro ⟨r, hr, hk, h⟩
        exact ⟨r, .inl hr, hk, h⟩

theorem filter_updateWhere {q : ρ → Bool} (h : ∀ r, q (f r) = q r) :
    (updateWhere p f rows).filter q = updateWhere p f (rows.filter q) := by
  induction rows with
  | nil => rfl
  | cons r rows ih =>
    have hq : q (if p r then f r else r) = q r := by split <;> simp [h]
    rw [updateWhere] at ih ⊢
    rw [List.map_cons, List.filter_cons, List.filter_cons, hq, ih]
    split <;> rfl

theorem filter_updateWhere_of_not {q : ρ → Bool} (h : ∀ r ∈ rows, p r → ¬ q r ∧ ¬ q (f r)) :
    (updateWhere p f rows).filter q = rows.filter q := by
  induction rows with
  | nil => rfl
  | cons r rows ih =>
    have hrest := ih fun r hr => h r (List.mem_cons_of_mem _ hr)
    rw [updateWhere] at hrest ⊢
    rw [List.map_cons, List.filter_cons, List.filter_cons, hrest]
    by_cases hp : p r
    · obtain ⟨hr, hf⟩ := h r List.mem_cons_self hp
      rw [if_pos hp, if_neg hf, if_neg hr]
    · rw [if_neg hp]

theorem filter_deleteWhere_of_not {q : ρ → Bool} (h : ∀ r ∈ rows, p r → ¬ q r) :
    (deleteWhere p rows).filter q = rows.filter q := by
  rw [deleteWhere, List.filter_filter]
  refine List.filter_congr fun r hr => ?_
  cases hp : p r with
  | false => exact Bool.and_true _
  | true => rw [Bool.not_true, Bool.and_false, Bool.eq_false_iff.mpr (h r hr hp)]

theorem filter_append_of_not {q : ρ → Bool} {rows' : List ρ} (h : ∀ r ∈ rows', ¬ q r) :
    (rows ++ rows').filter q = rows.filter q := by
  rw [List.filter_append, List.filter_eq_nil_iff.mpr h, List.append_nil]

theorem find?_updateWhere {q : ρ → Bool} (h : ∀ r, q (f r) = q r) :
    (updateWhere p f rows).find? q = (rows.find? q).map fun r => if p r then f r else r := by
  have hq : (q ∘ fun r => if p r then f r else r) = q := by
    funext r
    simp only [Function.comp_apply]
    split <;> simp [h]
  rw [updateWhere, List.find?_map, hq]

theorem filter_eq_of_filter_eq {q q' : ρ → Bool} {rows' : List ρ}
    (h : rows.filter q = rows'.filter q') (hq : ∀ r ∈ rows, p r → q r)
    (hq' : ∀ r ∈ rows', p r → q' r) : rows.filter p = rows'.filter p := by
  have hsel : ∀ {q : ρ → Bool} {rows : List ρ}, (∀ r ∈ rows, p r → q r) →
      (rows.filter q).filter p = rows.filter p := by
    intro q rows hq
    rw [List.filter_filter]
    refine List.filter_congr fun r hr => ?_
    cases hp : p r with
    | false => rfl
    | true => exact hq r hr hp
  rw [← hsel hq, ← hsel hq', h]

theorem flatMap_filter_eq {β : Type*} {g : ρ → List β} (h : ∀ r ∈ rows, g r ≠ [] → p r) :
    (rows.filter p).flatMap g = rows.flatMap g := by
  induction rows with
  | nil => rfl
  | cons r rows ih =>
    have hrest := ih fun r hr => h r (List.mem_cons_of_mem _ hr)
    by_cases hp : p r
    · rw [List.filter_cons_of_pos hp, List.flatMap_cons, List.flatMap_cons, hrest]
    · have hg : g r = [] := by
        by_contra hne
        exact hp (h r List.mem_cons_self hne)
      rw [List.filter_cons_of_neg hp, List.flatMap_cons, hg, hrest, List.nil_append]

@[simp] theorem uniqueOn_nil : UniqueOn key [] := List.nodup_nil

theorem getLast?_filter_eq {q : ρ → Bool} (hr : r ∈ rows) (hq : q r)
    (huniq : ∀ r' ∈ rows, q r' → r' = r) : (rows.filter q).getLast? = some r := by
  rcases h : (rows.filter q).getLast? with _ | r'
  · have hmem : r ∈ rows.filter q := List.mem_filter.mpr ⟨hr, hq⟩
    rw [List.getLast?_eq_none_iff.mp h] at hmem
    cases hmem
  · obtain ⟨hm, hq'⟩ := List.mem_filter.mp (List.mem_of_getLast? h)
    rw [huniq r' hm hq']

theorem UniqueOn.updateWhere (hu : UniqueOn key rows) (h : ∀ r, key (f r) = key r) :
    UniqueOn key (updateWhere p f rows) := by
  rw [UniqueOn, map_updateWhere h]
  exact hu

theorem UniqueOn.deleteWhere (hu : UniqueOn key rows) : UniqueOn key (deleteWhere p rows) :=
  hu.sublist (List.filter_sublist.map key)

theorem uniqueOn_append_singleton :
    UniqueOn key (rows ++ [r]) ↔ UniqueOn key rows ∧ ∀ r' ∈ rows, key r' ≠ key r := by
  simp only [UniqueOn, List.map_append, List.map_cons, List.map_nil, List.nodup_append,
    List.nodup_cons, List.not_mem_nil, not_false_eq_true, List.nodup_nil, and_self, true_and,
    List.mem_map, List.mem_singleton, forall_eq, forall_exists_index, and_imp,
    forall_apply_eq_imp_iff₂]

theorem UniqueOn.eq_of_mem (hu : UniqueOn key rows) (hr : r ∈ rows) (hr' : r' ∈ rows)
    (h : key r = key r') : r = r' :=
  List.inj_on_of_nodup_map hu hr hr' h

theorem UniqueOn.nodup_map_filter {β : Type*} {g : ρ → β} (hu : UniqueOn key rows)
    (h : ∀ r r', p r → p r' → g r = g r' → key r = key r') : ((rows.filter p).map g).Nodup := by
  refine List.Nodup.map_on ?_ (hu.of_map.filter p)
  intro r hr r' hr' he
  obtain ⟨hr, hp⟩ := List.mem_filter.mp hr
  obtain ⟨hr', hp'⟩ := List.mem_filter.mp hr'
  exact hu.eq_of_mem hr hr' (h r r' hp hp' he)

theorem UniqueOn.flatMap_join {ρ' : Type*} {q : ρ' → ρ → Bool} (hu : UniqueOn key rows)
    (hq : ∀ a r r', q a r → q a r' → key r = key r') (rows' : List ρ') :
    (rows'.flatMap fun a => (rows.filter (q a)).map fun _ => a) =
      rows'.filter fun a => rows.any (q a) := by
  induction rows' with
  | nil => rfl
  | cons a rows' ih =>
    rw [List.flatMap_cons, ih, List.filter_cons]
    have hmem : ∀ r ∈ rows.filter (q a), r ∈ rows ∧ q a r := fun r hr => List.mem_filter.mp hr
    have hnodup := hu.of_map.filter (q a)
    rcases hf : rows.filter (q a) with _ | ⟨r, _ | ⟨r', rest⟩⟩
    · have hany : ¬ rows.any (q a) := by
        intro h
        obtain ⟨r, hr, hqr⟩ := List.any_eq_true.mp h
        exact List.filter_eq_nil_iff.mp hf r hr hqr
      rw [if_neg hany]
      rfl
    · obtain ⟨hr, hqr⟩ := hmem r (hf ▸ List.mem_cons_self)
      rw [if_pos (List.any_eq_true.mpr ⟨r, hr, hqr⟩)]
      rfl
    · obtain ⟨hr, hqr⟩ := hmem r (hf ▸ List.mem_cons_self)
      obtain ⟨hr', hqr'⟩ := hmem r' (hf ▸ List.mem_cons_of_mem _ List.mem_cons_self)
      rw [hf, hu.eq_of_mem hr hr' (hq a r r' hqr hqr')] at hnodup
      exact absurd List.mem_cons_self (List.nodup_cons.mp hnodup).1

theorem UniqueOn.find?_eq_some (hu : UniqueOn key rows) (hr : r ∈ rows) (hp : p r)
    (hkey : ∀ r' ∈ rows, p r' → key r' = key r) : rows.find? p = some r := by
  rcases h : rows.find? p with _ | r'
  · exact absurd hp (by simpa using List.find?_eq_none.mp h r hr)
  · have hm := List.mem_of_find?_eq_some h
    rw [hu.eq_of_mem hm hr (hkey r' hm (List.find?_some h))]

theorem UniqueOn.find?_iff [DecidableEq κ] {q : ρ → Prop} [DecidablePred q] {k : κ}
    (hu : UniqueOn key rows) :
    rows.find? (fun r => key r = k ∧ q r) = some r ↔ r ∈ rows ∧ key r = k ∧ q r := by
  constructor
  · intro hf
    exact ⟨List.mem_of_find?_eq_some hf, by simpa using List.find?_some hf⟩
  · rintro ⟨hm, rfl, hq⟩
    refine hu.find?_eq_some hm (by simp [hq]) fun r' _ hr' => ?_
    simp only [decide_eq_true_eq] at hr'
    exact hr'.1

end

section

variable {π : Type*} {fk : ρ → κ} {pk : π → κ} {rows : List ρ} {parents : List π}

theorem References.append_parents (h : References fk pk rows parents) (parents' : List π) :
    References fk pk rows (parents ++ parents') := by
  intro r hm
  obtain ⟨q, hq, he⟩ := h r hm
  exact ⟨q, List.mem_append_left _ hq, he⟩

theorem References.append_singleton {r : ρ} (h : References fk pk rows parents)
    (hr : ∃ q ∈ parents, pk q = fk r) : References fk pk (rows ++ [r]) parents := by
  intro r' hm
  rcases List.mem_append.mp hm with hm | hm
  · exact h r' hm
  · rw [List.mem_singleton.mp hm]; exact hr

theorem References.updateWhere {p : ρ → Bool} {f : ρ → ρ} (h : References fk pk rows parents)
    (hf : ∀ r, fk (f r) = fk r) : References fk pk (updateWhere p f rows) parents := by
  intro r hm
  obtain ⟨r₀, hr₀, rfl⟩ := mem_updateWhere.mp hm
  obtain ⟨q, hq, he⟩ := h r₀ hr₀
  refine ⟨q, hq, ?_⟩
  split <;> simp [hf, he]

theorem References.deleteWhere {p : ρ → Bool} (h : References fk pk rows parents) :
    References fk pk (deleteWhere p rows) parents :=
  fun r hm => h r (mem_deleteWhere.mp hm).1

theorem References.deleteWhere_both {p : ρ → Bool} {q : π → Bool}
    (h : References fk pk rows parents)
    (hpq : ∀ r ∈ rows, ∀ x ∈ parents, pk x = fk r → q x → p r) :
    References fk pk (Table.deleteWhere p rows) (Table.deleteWhere q parents) := by
  intro r hr
  obtain ⟨hr, hp⟩ := mem_deleteWhere.mp hr
  obtain ⟨x, hx, he⟩ := h r hr
  exact ⟨x, mem_deleteWhere.mpr ⟨hx, fun hq => hp (hpq r hr x hx he hq)⟩, he⟩

theorem References.updateWhere_parents {p : π → Bool} {f : π → π}
    (h : References fk pk rows parents) (hf : ∀ q, pk (f q) = pk q) :
    References fk pk rows (Table.updateWhere p f parents) := by
  intro r hm
  obtain ⟨q, hq, he⟩ := h r hm
  refine ⟨_, mem_updateWhere.mpr ⟨q, hq, rfl⟩, ?_⟩
  split <;> simp [hf, he]

end

end VoxServer.Table
