import VoxServer.Sql.Statement

/-! # Rebuilding a table

A table is given another definition by renaming it, creating it anew, copying its rows
and dropping the renamed one. The other tables keep their rows and columns.
-/

namespace VoxServer.Sql

def Definition.build (d : Definition) (columns : List String) (g : Row) : Row :=
  fun n => if n ∈ columns then g n else d.defaultOf n

theorem Definition.row_map (d : Definition) (columns : List String) (g : Row) :
    d.row columns (columns.map g) = d.build columns g := by
  funext n
  rw [row, build]
  induction columns with
  | nil => rfl
  | cons c cs ih =>
    rw [List.map_cons, List.zip_cons_cons, List.lookup_cons]
    by_cases hn : n = c
    · simp [hn]
    · rw [beq_false_of_ne hn]
      simpa [hn] using ih

theorem Table.carries_build {t : Table} {d : Definition} {g : Row → Row}
    {added : String → Row → Value → Prop} (hnames : t.names ⊆ d.names)
    (hkeep : ∀ r ∈ t.rows, ∀ n ∈ t.names, g r n = r n)
    (hadd : ∀ r ∈ t.rows, ∀ n ∈ d.names, n ∉ t.names → added n r (g r n)) :
    t.Carries added ⟨d, t.rows.map fun r => d.build d.names (g r)⟩ := by
  refine ⟨_, rfl, ?_⟩
  intro r hr
  constructor
  · intro n hn
    rw [Definition.build, if_pos (hnames hn)]
    exact hkeep r hr n hn
  · intro n hn hnot
    have hn : n ∈ d.names := hn
    rw [Definition.build, if_pos hn]
    exact hadd r hr n hn hnot

theorem exists_partner {rows : List Row} {c : String} {v : Value}
    (hd : rows.Pairwise fun r r' => [c].map r = [c].map r' → .null ∈ [c].map r)
    (hv : v ≠ .null) (h : ∃ p ∈ rows, p c = v) :
    ∃ p, (rows.filter fun r => v ≠ .null ∧ r c = v) = [p] := by
  have hnotwo : (rows.filter fun r => v ≠ .null ∧ r c = v).Pairwise fun _ _ => False := by
    refine (hd.filter _).imp_of_mem ?_
    intro r r' hr hr' hdistinct
    have hrv : r c = v := (of_decide_eq_true (List.mem_filter.mp hr).2).2
    have hrv' : r' c = v := (of_decide_eq_true (List.mem_filter.mp hr').2).2
    have hnull := hdistinct (by simp [hrv, hrv'])
    simp [hrv, Ne.symm hv] at hnull
  obtain ⟨p, hp, hpv⟩ := h
  have hmem : p ∈ rows.filter fun r => v ≠ .null ∧ r c = v :=
    List.mem_filter.mpr ⟨hp, decide_eq_true ⟨hv, hpv⟩⟩
  rcases hf : rows.filter fun r => v ≠ .null ∧ r c = v with _ | ⟨q, _ | ⟨q', l⟩⟩
  · rw [hf] at hmem
    cases hmem
  · exact ⟨q, hf⟩
  · rw [hf] at hnotwo
    exact absurd List.mem_cons_self (fun h => (List.pairwise_cons.mp hnotwo).1 q' h)

namespace Db

variable {db : Db} {n old : String} {d : Definition} {t u : Table} {columns : List String}

theorem checked_of_not_enforced (h : db.enforced = false) : db.checked = .ok db := by
  simp [checked, h]

theorem insertSelect_eq {source : Source} {s : Selection} {F : String → Field}
    (ht : db.table? n = some t) (hs : db.select source = .ok s) (hoff : db.enforced = false)
    (hF : ∀ c ∈ columns, (F c).isIn s) (hcols : columns ⊆ t.names) :
    db.insertSelect n columns source (columns.map F) =
      (t.insertRows (s.pairs.map fun p =>
        t.definition.build columns fun c => (F c).value p)).map (db.replace n) := by
  have hfields : (columns.map F).find? (fun f => !f.isIn s) = none := by
    simpa [List.find?_eq_none] using hF
  have hnames : columns.find? (· ∉ t.names) = none := by
    simpa [List.find?_eq_none] using fun c hc => hcols hc
  have hvalues : ∀ p : Row × Row, (columns.map F).map (·.value p) =
      columns.map fun c => (F c).value p := fun p => List.map_map
  simp only [insertSelect, ht, hs, bind, Except.bind, hfields, hnames, hvalues,
    Definition.row_map, List.length_map, ne_eq, not_true_eq_false, if_false]
  cases t.insertRows (s.pairs.map fun p => t.definition.build columns fun c => (F c).value p) with
  | error e => rfl
  | ok t' => exact checked_of_not_enforced hoff

variable (columns) in
theorem insertSelect_noSuchColumn {source : Source} {s : Selection} {fields : List Field}
    (ht : db.table? n = some t) (hs : db.select source = .ok s)
    (h : ∃ f ∈ fields, f.isIn s = false) :
    ∃ e, db.insertSelect n columns source fields = .error e := by
  obtain ⟨f, hf, hno⟩ := h
  obtain ⟨g, hg⟩ := Option.isSome_iff_exists.mp
    (List.find?_isSome.mpr ⟨f, hf, by simpa using hno⟩ : (fields.find? fun f => !f.isIn s).isSome)
  refine ⟨.noSuchColumn g.column, ?_⟩
  simp only [insertSelect, ht, hs, bind, Except.bind, hg]

/-- The table under another definition, with the rows of `fill`. -/
def rebuild (n old : String) (d : Definition) (fill : Statement) : List Statement :=
  [.renameTable n old, .createTable n d, fill, .dropTable old]

/-- The database with the renamed table and a new one under its name. -/
def staged (db : Db) (n old : String) (d : Definition) : Db := (db.rename n old).create n d

def rebuilt (db : Db) (n old : String) (d : Definition) (rows : List Row) : Db :=
  ((db.staged n old d).replace n ⟨d, rows⟩).drop old

theorem table?_staged (hne : n ≠ old) (ho : db.table? old = none) (m : String) :
    (db.staged n old d).table? m = if m = n then some ⟨d, []⟩
      else if m = old then (db.table? n).map (Table.retarget n old)
      else (db.table? m).map (Table.retarget n old) := by
  have hn : (db.rename n old).table? n = none := by
    rw [table?_rename hne ho, if_neg hne, if_pos rfl]
  rw [staged, table?_create hn, table?_rename hne ho]
  by_cases hm : m = n <;> simp [hm]

theorem table?_rebuilt (hne : n ≠ old) (ho : db.table? old = none) (rows : List Row) (m : String) :
    (db.rebuilt n old d rows).table? m = if m = n then some ⟨d, rows⟩
      else if m = old then none else (db.table? m).map (Table.retarget n old) := by
  rw [rebuilt, table?_drop, table?_replace, table?_staged hne ho]
  by_cases hm : m = n
  · simp [hm, hne]
  · simp only [if_neg hm]
    by_cases hold : m = old
    · simp only [if_pos hold]
    · simp only [if_neg hold]

section

variable (hne : n ≠ old) (ht : db.table? n = some t) (ho : db.table? old = none)

include hne ht ho

/-- The statement that fills the new table has the renamed one beside it. -/
theorem run_rebuild (fill : Statement) : db.run (rebuild n old d fill) =
    ((db.staged n old d).exec fill).bind fun db' => db'.exec (.dropTable old) := by
  have hrename : db.exec (.renameTable n old) = .ok (db.rename n old) := by simp [exec, ht, ho]
  have hn : (db.rename n old).table? n = none := by
    rw [table?_rename hne ho, if_neg hne, if_pos rfl]
  have hcreate : (db.rename n old).exec (.createTable n d) = .ok (db.staged n old d) := by
    simp [exec, hn, staged]
  rw [rebuild, run_cons, hrename, Except.bind, run_cons, hcreate, Except.bind, run_cons]
  congr 1
  funext db'
  rw [run_cons]
  cases db'.exec (.dropTable old) <;> rfl

theorem run_rebuild_insertRows {fill : Statement} {rows : List Row} (hoff : db.enforced = false)
    (hfill : (db.staged n old d).exec fill =
      ((⟨d, []⟩ : Table).insertRows rows).map ((db.staged n old d).replace n)) :
    db.run (rebuild n old d fill) =
      ((⟨d, []⟩ : Table).insertRows rows).map fun t' => db.rebuilt n old d t'.rows := by
  rw [run_rebuild hne ht ho, hfill]
  cases hi : (⟨d, []⟩ : Table).insertRows rows with
  | error e => rfl
  | ok t' =>
    obtain ⟨rfl, -⟩ := (Table.insertRows_new d rows).mp hi
    have hold : ((db.staged n old d).replace n ⟨d, rows⟩).table? old ≠ none := by
      rw [table?_replace, table?_staged hne ho]
      simp [hne.symm, ht]
    change exec _ (.dropTable old) = .ok (db.rebuilt n old d rows)
    rw [exec, if_neg (by simpa using hold)]
    exact checked_of_not_enforced hoff

theorem select_staged : (db.staged n old d).select (.table old) =
    .ok ⟨t.names, [], t.rows.map fun r => (r, fun _ => .null)⟩ := by
  have hold : (db.staged n old d).table? old = some (t.retarget n old) := by
    rw [table?_staged hne ho, if_neg hne.symm, if_pos rfl, ht]
    rfl
  rw [select, hold]
  rfl

theorem select_staged_join {m c c' : String} (hm : db.table? m = some u) (hmn : m ≠ n)
    (hmo : m ≠ old) (hc : c ∈ t.names) (hc' : c' ∈ u.names) {partner : Row → Row}
    (hp : ∀ r ∈ t.rows, (u.rows.filter fun r' => r c ≠ .null ∧ r' c' = r c) = [partner r]) :
    (db.staged n old d).select (.join old c m c') =
      .ok ⟨t.names, u.names, t.rows.map fun r => (r, partner r)⟩ := by
  have hold : (db.staged n old d).table? old = some (t.retarget n old) := by
    rw [table?_staged hne ho, if_neg hne.symm, if_pos rfl, ht]
    rfl
  have hother : (db.staged n old d).table? m = some (u.retarget n old) := by
    rw [table?_staged hne ho, if_neg hmn, if_neg hmo, hm]
    rfl
  have hpairs : (t.rows.flatMap fun r => (u.rows.filter fun r' =>
      r c ≠ .null ∧ r' c' = r c).map fun r' => (r, r')) = t.rows.map fun r => (r, partner r) := by
    rw [List.map_eq_flatMap]
    apply List.flatMap_congr
    intro r hr
    rw [hp r hr]
    rfl
  simp only [select, hold, hother, Table.names_retarget, hc, hc', not_true_eq_false, if_false]
  exact congrArg (fun l => Except.ok (Selection.mk _ _ l)) hpairs

theorem run_rebuild_insert (hoff : db.enforced = false) {source : Source} {s : Selection}
    {F : String → Field} (hs : (db.staged n old d).select source = .ok s)
    (hF : ∀ c ∈ d.names, (F c).isIn s) :
    db.run (rebuild n old d (.insertSelect n d.names source (d.names.map F))) =
      ((⟨d, []⟩ : Table).insertRows (s.pairs.map fun p =>
        d.build d.names fun c => (F c).value p)).map fun t' => db.rebuilt n old d t'.rows := by
  apply run_rebuild_insertRows hne ht ho hoff
  have hn : (db.staged n old d).table? n = some ⟨d, []⟩ := by rw [table?_staged hne ho, if_pos rfl]
  exact insertSelect_eq hn hs hoff hF (List.Subset.refl _)

theorem run_rebuild_copy (hoff : db.enforced = false) (hcols : d.names ⊆ t.names)
    (hnames : t.names ⊆ d.names) (added : String → Row → Value → Prop) :
    ∃ rows, t.Carries added ⟨d, rows⟩ ∧
      db.run (rebuild n old d (.insertSelect n d.names (.table old) (d.names.map .left))) =
        ((⟨d, []⟩ : Table).insertRows rows).map fun t' => db.rebuilt n old d t'.rows := by
  refine ⟨_, Table.carries_build (g := id) hnames (fun _ _ _ _ => rfl) ?_, ?_⟩
  · intro r _ n hn hnot
    exact absurd (hcols hn) hnot
  · have hs := select_staged hne ht ho (d := d)
    rw [run_rebuild_insert hne ht ho hoff hs fun c hc => by simpa [Field.isIn] using hcols hc,
      List.map_map]
    rfl

theorem run_rebuild_all (hoff : db.enforced = false) (hnames : t.names = d.names)
    (added : String → Row → Value → Prop) :
    ∃ rows, t.Carries added ⟨d, rows⟩ ∧ db.run (rebuild n old d (.insertSelectAll n old)) =
      ((⟨d, []⟩ : Table).insertRows rows).map fun t' => db.rebuilt n old d t'.rows := by
  obtain ⟨rows, hcarries, hrun⟩ := run_rebuild_copy hne ht ho hoff (d := d)
    (fun _ h => hnames.symm ▸ h) (fun _ h => hnames ▸ h) added
  refine ⟨rows, hcarries, ?_⟩
  have hn : (db.staged n old d).table? n = some ⟨d, []⟩ := by rw [table?_staged hne ho, if_pos rfl]
  have hold : (db.staged n old d).table? old = some (t.retarget n old) := by
    rw [table?_staged hne ho, if_neg hne.symm, if_pos rfl, ht]
    rfl
  rw [run_rebuild hne ht ho, exec] at hrun
  have hall : (db.staged n old d).exec (.insertSelectAll n old) =
      (db.staged n old d).insertSelect n d.names (.table old) (t.names.map .left) := by
    rw [exec, hn, hold]
    rfl
  rw [run_rebuild hne ht ho, hall, hnames]
  exact hrun

/-- The rows are copied with one more column, from the row of another table that a
unique column relates to them. -/
theorem run_rebuild_join (hoff : db.enforced = false) {m c c' k v : String}
    (hm : db.table? m = some u) (hmn : m ≠ n) (hmo : m ≠ old) (hc : c ∈ t.names)
    (hc' : c' ∈ u.names) (hk : k ∈ u.names) (hv : v ∉ t.names) (hcols : d.names ⊆ v :: t.names)
    (hnames : t.names ⊆ d.names)
    (hp : ∀ r ∈ t.rows, ∃ p, (u.rows.filter fun r' => r c ≠ .null ∧ r' c' = r c) = [p]) :
    ∃ rows, t.Carries (fun n r x => n = v ∧ ∃ p ∈ u.rows, p c' = r c ∧ x = p k) ⟨d, rows⟩ ∧
      db.run (rebuild n old d (.insertSelect n d.names (.join old c m c')
        (d.names.map fun n => if n = v then .right k else .left n))) =
        ((⟨d, []⟩ : Table).insertRows rows).map fun t' => db.rebuilt n old d t'.rows := by
  choose! partner hpartner using hp
  refine ⟨_, Table.carries_build (g := fun r n =>
    (if n = v then Field.right k else .left n).value (r, partner r)) hnames ?_ ?_, ?_⟩
  · intro r _ n hn
    rw [if_neg (by rintro rfl; exact hv hn)]
    rfl
  · intro r hr n hn hnot
    obtain rfl : n = v := (List.mem_cons.mp (hcols hn)).resolve_right hnot
    have hmem : partner r ∈ u.rows.filter fun r' => r c ≠ .null ∧ r' c' = r c := by
      rw [hpartner r hr]
      exact List.mem_cons_self
    obtain ⟨hmem, hvalue⟩ := List.mem_filter.mp hmem
    refine ⟨rfl, partner r, hmem, (of_decide_eq_true hvalue).2, ?_⟩
    rw [if_pos rfl]
    rfl
  · have hs := select_staged_join hne ht ho (d := d) hm hmn hmo hc hc' hpartner
    have hF : ∀ n ∈ d.names, (if n = v then Field.right k else .left n).isIn
        ⟨t.names, u.names, t.rows.map fun r => (r, partner r)⟩ := by
      intro n hn
      by_cases hnv : n = v
      · simpa [hnv, Field.isIn] using hk
      · simpa [hnv, Field.isIn] using (List.mem_cons.mp (hcols hn)).resolve_left hnv
    rw [run_rebuild_insert hne ht ho hoff hs hF, List.map_map]
    rfl

theorem run_rebuild_missing {columns : List String} {c : String} (hc : c ∈ columns)
    (hmissing : c ∉ t.names) :
    ∃ e, db.run (rebuild n old d (.insertSelect n columns (.table old) (columns.map .left))) =
      .error e := by
  have hn : (db.staged n old d).table? n = some ⟨d, []⟩ := by rw [table?_staged hne ho, if_pos rfl]
  obtain ⟨e, he⟩ := insertSelect_noSuchColumn columns hn (select_staged hne ht ho)
    ⟨.left c, List.mem_map_of_mem hc, by simpa [Field.isIn] using hmissing⟩
  refine ⟨e, ?_⟩
  rw [run_rebuild hne ht ho, exec, he]
  rfl

end

end Db

end VoxServer.Sql
