import VoxServer.Sql.Database

/-! # Statements that change a schema

The statements by which a table is created, altered, copied into another one and
dropped, as functions of the database that may throw. Renaming a table renames it in
the references to it. Foreign keys are checked at the end of a statement that changes
rows, if they are enforced.
-/

namespace VoxServer.Sql

/-- Where a `SELECT` takes its rows from. -/
inductive Source where
  | table (name : String)
  | join (name column other otherColumn : String)

inductive Field where
  | left (column : String)
  | right (column : String)

inductive Statement where
  | createTable (table : String) (definition : Definition)
  | createTableIfNotExists (table : String) (definition : Definition)
  | createIndexIfNotExists (index : Index)
  | addColumn (table : String) (column : Column)
  | renameTable (table newName : String)
  | insertSelect (table : String) (columns : List String) (source : Source) (fields : List Field)
  | insertSelectAll (table source : String)
  | dropTable (table : String)
  | foreignKeys (on : Bool)

/-- What a source has: the columns on both sides, and the rows in pairs. -/
structure Selection where
  left : List String
  right : List String
  pairs : List (Row × Row)

namespace Field

def column : Field → String
  | .left c => c
  | .right c => c

def isIn (s : Selection) : Field → Bool
  | .left c => c ∈ s.left
  | .right c => c ∈ s.right

def value (p : Row × Row) : Field → Value
  | .left c => p.1 c
  | .right c => p.2 c

end Field

/-- A row from the values of some columns, with the others at their defaults. -/
def Definition.row (d : Definition) (columns : List String) (values : List Value) : Row :=
  fun n => ((columns.zip values).lookup n).getD (d.defaultOf n)

namespace Db

variable (db : Db)

def table? (n : String) : Option Table := db.tables.lookup n

def rows (n : String) : List Row := ((db.table? n).map (·.rows)).getD []

def names (n : String) : List String := ((db.table? n).map (·.names)).getD []

/-- The key of the row is null or the key of a row of the parent table. -/
def Refers (fk : ForeignKey) (r : Row) : Prop :=
  .null ∈ fk.columns.map r ∨ ∃ p ∈ db.rows fk.parent, fk.parentColumns.map p = fk.columns.map r

def ForeignKeysHold : Prop :=
  ∀ n ∈ db.tables.map Prod.fst, ∀ t ∈ db.table? n, ∀ fk ∈ t.definition.foreignKeys,
    ∀ r ∈ t.rows, db.Refers fk r

instance (fk : ForeignKey) (r : Row) : Decidable (db.Refers fk r) :=
  inferInstanceAs (Decidable (_ ∨ _))

instance : Decidable db.ForeignKeysHold :=
  inferInstanceAs (Decidable (∀ n ∈ db.tables.map Prod.fst, ∀ t ∈ db.table? n,
    ∀ fk ∈ t.definition.foreignKeys, ∀ r ∈ t.rows, db.Refers fk r))

def create (n : String) (d : Definition) : Db := { db with tables := db.tables ++ [(n, ⟨d, []⟩)] }

def replace (n : String) (t : Table) : Db :=
  { db with tables := db.tables.map fun p => if p.1 = n then (n, t) else p }

def drop (n : String) : Db :=
  { db with
    tables := db.tables.filter fun p => p.1 ≠ n
    indexes := db.indexes.filter fun i => i.table ≠ n }

def rename (n m : String) : Db :=
  { db with
    tables := db.tables.map fun p => (if p.1 = n then m else p.1, p.2.retarget n m)
    indexes := db.indexes.map fun i => if i.table = n then { i with table := m } else i }

/-- The database after a change of rows, if the foreign keys allow it. -/
def checked : Except Error Db :=
  if db.enforced ∧ ¬ db.ForeignKeysHold then .error .foreignKey else .ok db

def select : Source → Except Error Selection
  | .table n =>
    match db.table? n with
    | none => .error (.noSuchTable n)
    | some t => .ok ⟨t.names, [], t.rows.map fun r => (r, fun _ => .null)⟩
  | .join n c m c' =>
    match db.table? n, db.table? m with
    | none, _ => .error (.noSuchTable n)
    | some _, none => .error (.noSuchTable m)
    | some t, some u =>
      if c ∉ t.names then .error (.noSuchColumn c)
      else if c' ∉ u.names then .error (.noSuchColumn c')
      else .ok ⟨t.names, u.names, t.rows.flatMap fun r =>
        (u.rows.filter fun r' => r c ≠ .null ∧ r' c' = r c).map fun r' => (r, r')⟩

def insertSelect (n : String) (columns : List String) (source : Source) (fields : List Field) :
    Except Error Db :=
  match db.table? n with
  | none => .error (.noSuchTable n)
  | some t => do
    let s ← db.select source
    match fields.find? fun f => !f.isIn s, columns.find? (· ∉ t.names) with
    | some f, _ => .error (.noSuchColumn f.column)
    | none, some c => .error (.noSuchColumn c)
    | none, none =>
      if columns.length ≠ fields.length then .error (.columnCount n)
      else
        let t ← t.insertRows (s.pairs.map fun p =>
          t.definition.row columns (fields.map (·.value p)))
        (db.replace n t).checked

def exec : Statement → Except Error Db
  | .createTable n d =>
    if (db.table? n).isSome then .error (.tableExists n) else .ok (db.create n d)
  | .createTableIfNotExists n d => if (db.table? n).isSome then .ok db else .ok (db.create n d)
  | .createIndexIfNotExists i =>
    if db.indexes.any (·.name = i.name) then .ok db
    else if (db.table? i.table).isNone then .error (.noSuchTable i.table)
    else .ok { db with indexes := db.indexes ++ [i] }
  | .addColumn n c =>
    match db.table? n with
    | none => .error (.noSuchTable n)
    | some t =>
      if c.name ∈ t.names then .error (.duplicateColumn c.name)
      else if c.notNull ∧ c.default = .null then .error .nullDefault
      else .ok (db.replace n (t.addColumn c))
  | .renameTable n m =>
    if (db.table? n).isNone then .error (.noSuchTable n)
    else if (db.table? m).isSome then .error (.nameTaken m)
    else .ok (db.rename n m)
  | .insertSelect n columns source fields => db.insertSelect n columns source fields
  | .insertSelectAll n m =>
    match db.table? n, db.table? m with
    | some t, some u => db.insertSelect n t.names (.table m) (u.names.map .left)
    | none, _ => .error (.noSuchTable n)
    | _, none => .error (.noSuchTable m)
  | .dropTable n => if (db.table? n).isNone then .error (.noSuchTable n) else (db.drop n).checked
  | .foreignKeys on => .ok { db with enforced := on }

/-- The statements, up to the first that throws. -/
def run (statements : List Statement) : Except Error Db := statements.foldlM exec db

/-! ### Looking tables up -/

variable {db} {n m k : String} {t u : Table}

theorem mem_of_table? (h : db.table? n = some t) : (n, t) ∈ db.tables := by
  obtain ⟨l, l', he, -⟩ := List.lookup_eq_some_iff.mp h
  simp [he]

theorem foreignKeysHold_iff : db.ForeignKeysHold ↔ ∀ n t, db.table? n = some t →
    ∀ fk ∈ t.definition.foreignKeys, ∀ r ∈ t.rows, db.Refers fk r := by
  constructor
  · intro h n t ht
    exact h n (List.mem_map_of_mem (mem_of_table? ht)) t ht
  · intro h n _ t ht
    exact h n t ht

theorem rows_eq (h : db.table? n = some t) : db.rows n = t.rows := by rw [rows, h]; rfl

theorem names_eq (h : db.table? n = some t) : db.names n = t.names := by rw [names, h]; rfl

theorem lookup_cons_ite (k : String) (p : String × Table) (l : List (String × Table)) :
    (p :: l).lookup k = if k = p.1 then some p.2 else l.lookup k := by
  rw [List.lookup_cons]
  by_cases h : k = p.1
  · simp [h]
  · simp [beq_false_of_ne h, h]

theorem table?_create (h : db.table? n = none) (d : Definition) :
    (db.create n d).table? m = if m = n then some ⟨d, []⟩ else db.table? m := by
  rw [table?, create, List.lookup_append, lookup_cons_ite]
  by_cases hm : m = n
  · subst hm
    rw [show db.tables.lookup m = none from h]
    simp
  · simp [hm, table?]

theorem table?_replace (t : Table) :
    (db.replace n t).table? m = if m = n then (db.table? m).map fun _ => t else db.table? m := by
  rw [table?, table?, replace]
  induction db.tables with
  | nil => simp
  | cons p l ih =>
    rw [List.map_cons, lookup_cons_ite, lookup_cons_ite, ih]
    by_cases hp : p.1 = n
    · by_cases hm : m = n <;> simp [hp, hm]
    · by_cases hmp : m = p.1 <;> simp [hp, hmp]

theorem table?_drop : (db.drop n).table? m = if m = n then none else db.table? m := by
  rw [table?, table?, drop]
  induction db.tables with
  | nil => simp
  | cons p l ih =>
    rw [List.filter_cons, lookup_cons_ite]
    by_cases hp : p.1 = n
    · rw [if_neg (by simp [hp]), ih]
      by_cases hm : m = n <;> simp [hp, hm]
    · rw [if_pos (by simp [hp]), lookup_cons_ite, ih]
      by_cases hmp : m = p.1 <;> simp [hp, hmp]

theorem table?_rename (hne : n ≠ m) (h : db.table? m = none) :
    (db.rename n m).table? k = if k = m then (db.table? n).map (Table.retarget n m)
      else if k = n then none else (db.table? k).map (Table.retarget n m) := by
  rw [table?] at h
  rw [table?, table?, table?, rename]
  revert h
  induction db.tables with
  | nil => simp
  | cons p l ih =>
    rw [lookup_cons_ite]
    intro h
    split at h
    · cases h
    · rename_i hmp
      rw [List.map_cons, lookup_cons_ite, lookup_cons_ite, lookup_cons_ite, ih h]
      by_cases hp : p.1 = n
      · by_cases hk : k = m
        · simp [hp, hk]
        · by_cases hkn : k = n <;> simp [hp, hk, hkn, hne]
      · by_cases hk : k = m
        · simp [hp, hk, hmp, Ne.symm hp]
        · by_cases hkp : k = p.1
          · subst hkp
            simp [hp, hk]
          · simp [hp, hk, hkp]

/-! ### Statements without an effect, and added columns -/

theorem run_cons (s : Statement) (l : List Statement) :
    db.run (s :: l) = (db.exec s).bind fun db' => db'.run l := List.foldlM_cons

theorem run_append (l l' : List Statement) :
    db.run (l ++ l') = (db.run l).bind fun db' => db'.run l' := List.foldlM_append

theorem run_eq_self {l : List Statement} (h : ∀ s ∈ l, db.exec s = .ok db) : db.run l = .ok db := by
  induction l with
  | nil => rfl
  | cons s l ih =>
    obtain ⟨hs, hl⟩ := List.forall_mem_cons.mp h
    rw [run_cons, hs]
    exact ih hl

theorem exec_createTableIfNotExists (h : db.table? n = some t) (d : Definition) :
    db.exec (.createTableIfNotExists n d) = .ok db := if_pos (by rw [h]; rfl)

def ensure (db : Db) (n : String) (c : Column) : Db :=
  match db.table? n with
  | none => db
  | some t => if c.name ∈ t.names then db else db.replace n (t.addColumn c)

theorem exec_addColumn (h : db.table? n = some t) {c : Column}
    (hc : c.notNull → c.default ≠ .null) :
    db.exec (.addColumn n c) = .ok (db.ensure n c) ∨
      db.exec (.addColumn n c) = .error (.duplicateColumn c.name) ∧ db.ensure n c = db := by
  simp only [exec, ensure, h]
  by_cases hmem : c.name ∈ t.names
  · right
    simp [hmem]
  · left
    simpa [hmem] using hc

theorem table?_ensure (c : Column) :
    (db.ensure n c).table? m = if m = n then (db.table? m).map (·.ensure c) else db.table? m := by
  rw [ensure]
  by_cases hm : m = n
  · subst hm
    rw [if_pos rfl]
    split
    · rename_i h
      simp [h]
    · rename_i t h
      by_cases hmem : c.name ∈ t.names
      · simp [hmem, h, Table.ensure]
      · simp [hmem, h, Table.ensure, table?_replace]
  · rw [if_neg hm]
    split
    · rfl
    · split
      · rfl
      · rw [table?_replace, if_neg hm]

theorem ensure_eq_self (h : db.table? n = some t) {c : Column} (hc : c.name ∈ t.names) :
    db.ensure n c = db := by simp [ensure, h, hc]

theorem enforced_ensure (c : Column) : (db.ensure n c).enforced = db.enforced := by
  rw [ensure]
  split
  · rfl
  · split <;> rfl

theorem indexes_ensure (c : Column) : (db.ensure n c).indexes = db.indexes := by
  rw [ensure]
  split
  · rfl
  · split <;> rfl

/-- The columns a list adds to a table. -/
def columnsFor (n : String) (l : List (String × Column)) : List Column :=
  (l.filter fun p => p.1 = n).map Prod.snd

def ensureAll (db : Db) (l : List (String × Column)) : Db :=
  l.foldl (fun db p => db.ensure p.1 p.2) db

variable {l : List (String × Column)}

theorem ensureAll_cons (p : String × Column) :
    db.ensureAll (p :: l) = (db.ensure p.1 p.2).ensureAll l := rfl

theorem table?_ensureAll : (db.ensureAll l).table? n =
    (db.table? n).map (·.ensureAll (columnsFor n l)) := by
  induction l generalizing db with
  | nil => simp [ensureAll, columnsFor, Table.ensureAll]
  | cons p l ih =>
    rw [ensureAll_cons, ih, table?_ensure, columnsFor, columnsFor, List.filter_cons]
    by_cases hp : p.1 = n
    · rw [if_pos hp.symm, if_pos (by simpa using hp), Option.map_map]
      rfl
    · rw [if_neg (Ne.symm hp), if_neg (by simpa using hp)]

theorem enforced_ensureAll : (db.ensureAll l).enforced = db.enforced := by
  induction l generalizing db with
  | nil => rfl
  | cons p l ih => exact ih.trans (enforced_ensure p.2)

theorem indexes_ensureAll : (db.ensureAll l).indexes = db.indexes := by
  induction l generalizing db with
  | nil => rfl
  | cons p l ih => exact ih.trans (indexes_ensure p.2)

theorem ensureAll_eq_self (h : ∀ p ∈ l, ∃ t, db.table? p.1 = some t ∧ p.2.name ∈ t.names) :
    db.ensureAll l = db := by
  induction l with
  | nil => rfl
  | cons p l ih =>
    obtain ⟨⟨t, ht, hp⟩, hl⟩ := List.forall_mem_cons.mp h
    rw [ensureAll_cons, ensure_eq_self ht hp]
    exact ih hl

end Db

end VoxServer.Sql
