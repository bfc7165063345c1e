import Mathlib.Data.Int.Notation
import Mathlib.Data.List.Nodup
import Mathlib.Tactic.Common

/-! # Tables with named columns

A database is a list of named tables. A row gives a value to each column of its
table, and the constraints of the definition say which rows a table can hold. Foreign
keys are a property of the whole database, since their enforcement can be off.
-/

namespace VoxServer.Sql

inductive Value where
  | null
  | integer (n : ℤ)
  | text (s : String)
  deriving DecidableEq, Repr

inductive ColumnType where
  | integer
  | text
  | blob
  deriving DecidableEq, Repr

structure Column where
  name : String
  type : ColumnType
  notNull : Bool := false
  default : Value := .null
  deriving DecidableEq, Repr

namespace Column

def integer (name : String) : Column := { name, type := .integer }

def text (name : String) : Column := { name, type := .text }

def blob (name : String) : Column := { name, type := .blob }

/-- The column, declared `NOT NULL`. -/
def required (c : Column) : Column := { c with notNull := true }

/-- The column, declared with a `DEFAULT`. -/
def defaultsTo (c : Column) (v : Value) : Column := { c with default := v }

end Column

structure ForeignKey where
  columns : List String
  parent : String
  parentColumns : List String
  deriving DecidableEq, Repr

/-- What `CREATE TABLE` declares. -/
structure Definition where
  columns : List Column
  primaryKey : List String
  unique : List (List String) := []
  foreignKeys : List ForeignKey := []
  autoincrement : Bool := false
  deriving DecidableEq, Repr

/-- The values of a row, by the names of the columns. -/
abbrev Row := String → Value

structure Table where
  definition : Definition
  rows : List Row

structure Index where
  name : String
  table : String
  columns : List String
  deriving DecidableEq, Repr

/-- The tables and indexes, and whether the connection enforces foreign keys. -/
structure Db where
  tables : List (String × Table)
  indexes : List Index
  enforced : Bool

inductive Error where
  | noSuchTable (table : String)
  | tableExists (table : String)
  | nameTaken (table : String)
  | noSuchColumn (column : String)
  | duplicateColumn (column : String)
  | nullDefault
  | notNull (column : String)
  | unique (columns : List String)
  | columnCount (table : String)
  | foreignKey
  deriving DecidableEq, Repr

def Error.message : Error → String
  | .noSuchTable t => "no such table: " ++ t
  | .tableExists t => "table " ++ t ++ " already exists"
  | .nameTaken t => "there is already another table or index with this name: " ++ t
  | .noSuchColumn c => "no such column: " ++ c
  | .duplicateColumn c => "duplicate column name: " ++ c
  | .nullDefault => "Cannot add a NOT NULL column with default value NULL"
  | .notNull c => "NOT NULL constraint failed: " ++ c
  | .unique cs => "UNIQUE constraint failed: " ++ ", ".intercalate cs
  | .columnCount t => "table " ++ t ++ " was supplied another number of values"
  | .foreignKey => "FOREIGN KEY constraint failed"

namespace Definition

variable (d : Definition)

def names : List String := d.columns.map (·.name)

def keys : List (List String) := d.primaryKey :: d.unique

def defaultOf (n : String) : Value := ((d.columns.find? (·.name = n)).map (·.default)).getD .null

def AtDefault (n : String) (_ : Row) (v : Value) : Prop :=
  ∀ c ∈ d.columns, c.name = n → v = c.default

def retarget (n m : String) : Definition :=
  { d with foreignKeys := d.foreignKeys.map fun fk =>
      if fk.parent = n then { fk with parent := m } else fk }

/-- The definition, with its columns in any order and without some of the missing ones. -/
structure Matches (missing : List String) (d' : Definition) : Prop where
  columns_subset : ∀ c ∈ d'.columns, c ∈ d.columns
  columns_present : ∀ c ∈ d.columns, c.name ∉ missing → c ∈ d'.columns
  names_nodup : d'.names.Nodup
  primaryKey : d'.primaryKey = d.primaryKey
  unique : d'.unique = d.unique
  foreignKeys : d'.foreignKeys = d.foreignKeys
  autoincrement : d'.autoincrement = d.autoincrement

instance (missing : List String) (d' : Definition) : Decidable (d.Matches missing d') :=
  decidable_of_iff ((∀ c ∈ d'.columns, c ∈ d.columns) ∧
      (∀ c ∈ d.columns, c.name ∉ missing → c ∈ d'.columns) ∧ d'.names.Nodup ∧
      d'.primaryKey = d.primaryKey ∧ d'.unique = d.unique ∧ d'.foreignKeys = d.foreignKeys ∧
      d'.autoincrement = d.autoincrement)
    ⟨fun ⟨a, b, c, d, e, f, g⟩ => ⟨a, b, c, d, e, f, g⟩,
      fun ⟨a, b, c, d, e, f, g⟩ => ⟨a, b, c, d, e, f, g⟩⟩

variable {d} {d' : Definition} {missing : List String}

theorem mem_names {n : String} : n ∈ d.names ↔ ∃ c ∈ d.columns, c.name = n := List.mem_map

theorem name_mem_names {c : Column} (h : c ∈ d.columns) : c.name ∈ d.names :=
  List.mem_map_of_mem h

theorem eq_of_name_eq (hd : d.names.Nodup) {c c' : Column} (hc : c ∈ d.columns)
    (hc' : c' ∈ d.columns) (h : c.name = c'.name) : c = c' :=
  List.inj_on_of_nodup_map hd hc hc' h

theorem retarget_eq_self {n m : String} (h : ∀ fk ∈ d.foreignKeys, fk.parent ≠ n) :
    d.retarget n m = d := by
  have hmap : (d.foreignKeys.map fun fk => if fk.parent = n then { fk with parent := m } else fk) =
      d.foreignKeys := by
    rw [← List.map_id d.foreignKeys, List.map_map]
    apply List.map_congr_left
    intro fk hfk
    exact if_neg (h fk hfk)
  rw [retarget, hmap]

theorem Matches.names_subset (h : d.Matches missing d') : d'.names ⊆ d.names := by
  intro n hn
  obtain ⟨c, hc, rfl⟩ := mem_names.mp hn
  exact name_mem_names (h.columns_subset c hc)

theorem Matches.mono {missing' : List String} (h : d.Matches missing d')
    (hm : missing ⊆ missing') : d.Matches missing' d' :=
  { h with columns_present := fun c hc hnot => h.columns_present c hc fun hmem => hnot (hm hmem) }

theorem matches_refl (h : d.names.Nodup) : d.Matches [] d :=
  ⟨fun _ hc => hc, fun _ hc _ => hc, h, rfl, rfl, rfl, rfl⟩

theorem Matches.mem_names_of_not_missing (h : d.Matches missing d') {n : String}
    (hn : n ∈ d.names) (hm : n ∉ missing) : n ∈ d'.names := by
  obtain ⟨c, hc, rfl⟩ := mem_names.mp hn
  exact name_mem_names (h.columns_present c hc hm)

end Definition

namespace Table

def names (t : Table) : List String := t.definition.names

/-- The rows meet the `NOT NULL` and uniqueness constraints. -/
structure Sound (t : Table) : Prop where
  filled : ∀ r ∈ t.rows, ∀ c ∈ t.definition.columns, c.notNull → r c.name ≠ .null
  distinct : ∀ key ∈ t.definition.keys,
    t.rows.Pairwise fun r r' => key.map r = key.map r' → .null ∈ key.map r

instance (t : Table) : Decidable t.Sound :=
  decidable_of_iff ((∀ r ∈ t.rows, ∀ c ∈ t.definition.columns, c.notNull → r c.name ≠ .null) ∧
      ∀ key ∈ t.definition.keys,
        t.rows.Pairwise fun r r' => key.map r = key.map r' → .null ∈ key.map r)
    ⟨fun ⟨a, b⟩ => ⟨a, b⟩, fun ⟨a, b⟩ => ⟨a, b⟩⟩

def insert (t : Table) (r : Row) : Except Error Table :=
  match t.definition.columns.find? fun c => c.notNull && r c.name = .null with
  | some c => .error (.notNull c.name)
  | none =>
    match t.definition.keys.find? fun key =>
      .null ∉ key.map r && t.rows.any fun r' => key.map r' = key.map r with
    | some key => .error (.unique key)
    | none => .ok { t with rows := t.rows ++ [r] }

def insertRows (t : Table) (rs : List Row) : Except Error Table := rs.foldlM insert t

def addColumn (t : Table) (c : Column) : Table where
  definition := { t.definition with columns := t.definition.columns ++ [c] }
  rows := t.rows.map fun r => Function.update r c.name c.default

def ensure (t : Table) (c : Column) : Table := if c.name ∈ t.names then t else t.addColumn c

def ensureAll (t : Table) (cs : List Column) : Table := cs.foldl ensure t

def retarget (n m : String) (t : Table) : Table :=
  { t with definition := t.definition.retarget n m }

variable {t t' t'' : Table}

theorem names_retarget (n m : String) : (t.retarget n m).names = t.names := rfl

theorem names_addColumn (c : Column) : (t.addColumn c).names = t.names ++ [c.name] := by
  simp [names, addColumn, Definition.names]

/-- A sound table stays sound with a row exactly if the row is complete and repeats no key. -/
theorem sound_append_singleton (h : t.Sound) {r : Row} :
    Sound { t with rows := t.rows ++ [r] } ↔
      (∀ c ∈ t.definition.columns, c.notNull → r c.name ≠ .null) ∧
      ∀ key ∈ t.definition.keys, ∀ r' ∈ t.rows, key.map r' = key.map r → .null ∈ key.map r := by
  constructor
  · intro hs
    constructor
    · exact hs.filled r (List.mem_append_right _ List.mem_cons_self)
    · intro key hkey r' hr' he
      rw [← he]
      exact (List.pairwise_append.mp (hs.distinct key hkey)).2.2 r' hr' r List.mem_cons_self he
  · rintro ⟨hfill, hkeys⟩
    constructor
    · intro r' hr' c hc hn
      rcases List.mem_append.mp hr' with hr' | hr'
      · exact h.filled r' hr' c hc hn
      · rw [List.mem_singleton.mp hr']
        exact hfill c hc hn
    · intro key hkey
      apply List.pairwise_append.mpr
      refine ⟨h.distinct key hkey, List.pairwise_singleton _ _, ?_⟩
      intro r' hr' r'' hr'' he
      rw [List.mem_singleton.mp hr''] at he
      rw [he]
      exact hkeys key hkey r' hr' he

theorem insert_eq_ok (h : t.Sound) {r : Row} :
    t.insert r = .ok t' ↔
      t' = { t with rows := t.rows ++ [r] } ∧ Sound { t with rows := t.rows ++ [r] } := by
  rw [sound_append_singleton h, insert]
  split
  · rename_i c hc
    have hn := List.find?_some hc
    simp only [Bool.and_eq_true, decide_eq_true_eq] at hn
    constructor
    · intro he
      cases he
    · rintro ⟨-, hfill, -⟩
      exact absurd hn.2 (hfill c (List.mem_of_find?_eq_some hc) hn.1)
  · rename_i hfill
    split
    · rename_i key hkey
      have hn := List.find?_some hkey
      simp only [Bool.and_eq_true, decide_eq_true_eq, List.any_eq_true] at hn
      obtain ⟨hnull, r', hr', he⟩ := hn
      constructor
      · intro he
        cases he
      · rintro ⟨-, -, hkeys⟩
        exact absurd (hkeys key (List.mem_of_find?_eq_some hkey) r' hr' he) hnull
    · rename_i hkeys
      constructor
      · intro he
        cases he
        refine ⟨rfl, ?_, ?_⟩
        · intro c hc hn hnull
          have hnone := List.find?_eq_none.mp hfill c hc
          simp [hn, hnull] at hnone
        · intro key hkey r' hr' he
          by_contra hnull
          have hnone := List.find?_eq_none.mp hkeys key hkey
          simp only [Bool.and_eq_true, decide_eq_true_eq, List.any_eq_true] at hnone
          exact hnone ⟨hnull, r', hr', he⟩
      · rintro ⟨rfl, -⟩
        rfl

theorem Sound.sublist (h : t.Sound) {rows : List Row} (hl : rows.Sublist t.rows) :
    Sound { t with rows := rows } where
  filled r hr := h.filled r (hl.subset hr)
  distinct key hkey := (h.distinct key hkey).sublist hl

/-- Rows can be inserted exactly if the table is then still sound. -/
theorem insertRows_eq_ok (h : t.Sound) {rs : List Row} :
    t.insertRows rs = .ok t' ↔
      t' = { t with rows := t.rows ++ rs } ∧ Sound { t with rows := t.rows ++ rs } := by
  induction rs generalizing t with
  | nil =>
    rw [List.append_nil]
    constructor
    · intro he
      cases he
      exact ⟨rfl, h⟩
    · rintro ⟨rfl, -⟩
      rfl
  | cons r rs ih =>
    have happ : t.rows ++ r :: rs = (t.rows ++ [r]) ++ rs := by simp
    rw [happ, insertRows, List.foldlM_cons]
    constructor
    · intro he
      cases hi : t.insert r with
      | error e => rw [hi] at he; cases he
      | ok u =>
        rw [hi] at he
        obtain ⟨rfl, hu⟩ := (insert_eq_ok h).mp hi
        exact (ih hu).mp he
    · rintro ⟨rfl, hs⟩
      have hu : Sound { t with rows := t.rows ++ [r] } :=
        hs.sublist (List.sublist_append_left _ _)
      rw [(insert_eq_ok h).mpr ⟨rfl, hu⟩]
      exact (ih hu).mpr ⟨rfl, hs⟩

theorem insertRows_new (d : Definition) (rs : List Row) :
    (⟨d, []⟩ : Table).insertRows rs = .ok t ↔ t = ⟨d, rs⟩ ∧ Sound ⟨d, rs⟩ :=
  insertRows_eq_ok ⟨by simp, by simp⟩

/-! ### What a table keeps of another -/

/-- The rows of a table stand in another one with their values, and the other columns
have an admitted value. -/
def Carries (added : String → Row → Value → Prop) (t t' : Table) : Prop :=
  ∃ f : Row → Row, t'.rows = t.rows.map f ∧ ∀ r ∈ t.rows,
    (∀ n ∈ t.names, f r n = r n) ∧ ∀ n ∈ t'.names, n ∉ t.names → added n r (f r n)

theorem carries_refl (added : String → Row → Value → Prop) (t : Table) : t.Carries added t := by
  refine ⟨id, (List.map_id _).symm, ?_⟩
  intro r _
  exact ⟨fun _ _ => rfl, fun n hn hnot => absurd hn hnot⟩

theorem Carries.trans {added added' : String → Row → Value → Prop} (h : t.Carries added t')
    (h' : t'.Carries added' t'') (hnames : t.names ⊆ t'.names)
    (hadded : ∀ r r' : Row, (∀ n ∈ t.names, r' n = r n) → ∀ n ∉ t'.names, ∀ v,
      added' n r' v → added n r v) : t.Carries added t'' := by
  obtain ⟨f, hrows, hf⟩ := h
  obtain ⟨g, hrows', hg⟩ := h'
  refine ⟨g ∘ f, by rw [hrows', hrows, List.map_map], ?_⟩
  intro r hr
  have hr' : f r ∈ t'.rows := hrows ▸ List.mem_map_of_mem hr
  obtain ⟨hkeep, hadd⟩ := hf r hr
  obtain ⟨hkeep', hadd'⟩ := hg (f r) hr'
  constructor
  · intro n hn
    exact (hkeep' n (hnames hn)).trans (hkeep n hn)
  · intro n hn hnot
    by_cases hn' : n ∈ t'.names
    · rw [Function.comp, hkeep' n hn']
      exact hadd n hn' hnot
    · exact hadded r (f r) hkeep n hn' _ (hadd' n hn hn')

theorem Carries.mono {added added' : String → Row → Value → Prop} (h : t.Carries added t')
    (hadded : ∀ n ∈ t'.names, n ∉ t.names → ∀ r v, added n r v → added' n r v) :
    t.Carries added' t' := by
  obtain ⟨f, hrows, hf⟩ := h
  refine ⟨f, hrows, ?_⟩
  intro r hr
  obtain ⟨hkeep, hadd⟩ := hf r hr
  exact ⟨hkeep, fun n hn hnot => hadded n hn hnot _ _ (hadd n hn hnot)⟩

theorem Carries.exists_of_mem {added : String → Row → Value → Prop} (h : t.Carries added t')
    {r' : Row} (hr' : r' ∈ t'.rows) : ∃ r ∈ t.rows, (∀ n ∈ t.names, r' n = r n) ∧
      ∀ n ∈ t'.names, n ∉ t.names → added n r (r' n) := by
  obtain ⟨f, hrows, hf⟩ := h
  rw [hrows] at hr'
  obtain ⟨r, hr, rfl⟩ := List.mem_map.mp hr'
  exact ⟨r, hr, hf r hr⟩

theorem Carries.exists_row {added : String → Row → Value → Prop} (h : t.Carries added t')
    {r : Row} (hr : r ∈ t.rows) : ∃ r' ∈ t'.rows, ∀ n ∈ t.names, r' n = r n := by
  obtain ⟨f, hrows, hf⟩ := h
  exact ⟨f r, hrows ▸ List.mem_map_of_mem hr, (hf r hr).1⟩

/-- Carried rows are sound if no required column is null in them and every key of
theirs holds a key of the rows they were carried from. -/
theorem Sound.of_carries {added : String → Row → Value → Prop} (hs : t.Sound)
    (h : t.Carries added t')
    (hfill : ∀ c ∈ t'.definition.columns, c.notNull → ∀ r ∈ t.rows,
      (c.name ∈ t.names ∧ r c.name ≠ .null) ∨
      (c.name ∉ t.names ∧ ∀ v, added c.name r v → v ≠ .null))
    (hkeys : ∀ key ∈ t'.definition.keys, ∃ key' ∈ t.definition.keys,
      key' ⊆ key ∧ key' ⊆ t.names) : t'.Sound := by
  obtain ⟨f, hrows, hf⟩ := h
  constructor
  · intro r' hr' c hc hn
    rw [hrows] at hr'
    obtain ⟨r, hr, rfl⟩ := List.mem_map.mp hr'
    rcases hfill c hc hn r hr with ⟨hmem, hnull⟩ | ⟨hmem, hnull⟩
    · rw [(hf r hr).1 c.name hmem]
      exact hnull
    · exact hnull _ ((hf r hr).2 c.name (Definition.name_mem_names hc) hmem)
  · intro key hkey
    obtain ⟨key', hkey', hsub, hnames⟩ := hkeys key hkey
    have heq : ∀ r ∈ t.rows, ∀ n ∈ key', f r n = r n := fun r hr n hn =>
      (hf r hr).1 n (hnames hn)
    rw [hrows, List.pairwise_map]
    refine (hs.distinct key' hkey').imp_of_mem ?_
    intro r r' hr hr' hdistinct he
    have he' : key'.map r = key'.map r' := by
      apply List.map_congr_left
      intro n hn
      rw [← heq r hr n hn, ← heq r' hr' n hn]
      exact List.map_inj_left.mp he n (hsub hn)
    obtain ⟨n, hn, hnull⟩ := List.mem_map.mp (hdistinct he')
    exact List.mem_map.mpr ⟨n, hsub hn, (heq r hr n hn).trans hnull⟩

/-! ### Added columns -/

variable {d : Definition} {missing : List String} {c : Column} {cs : List Column}

theorem names_subset_ensure (t : Table) (c : Column) : t.names ⊆ (t.ensure c).names := by
  rw [ensure]
  split
  · exact List.Subset.refl _
  · rw [names_addColumn]
    exact List.subset_append_left _ _

theorem ensureAll_eq_self (h : ∀ c ∈ cs, c.name ∈ t.names) : t.ensureAll cs = t := by
  induction cs with
  | nil => rfl
  | cons c cs ih =>
    obtain ⟨hc, hcs⟩ := List.forall_mem_cons.mp h
    rw [ensureAll, List.foldl_cons, ensure, if_pos hc]
    exact ih hcs

theorem matches_ensure (hd : d.names.Nodup) (hc : c ∈ d.columns)
    (h : d.Matches (c.name :: missing) t.definition) :
    d.Matches missing (t.ensure c).definition := by
  rw [ensure]
  split
  · rename_i hmem
    refine { h with columns_present := ?_ }
    intro c' hc' hnot
    obtain ⟨c'', hc'', he⟩ := Definition.mem_names.mp hmem
    by_cases hname : c'.name = c.name
    · rwa [Definition.eq_of_name_eq hd hc' (h.columns_subset c'' hc'') (hname.trans he.symm)]
    · exact h.columns_present c' hc' (by simp [hname, hnot])
  · rename_i hmem
    refine { h with columns_subset := ?_, columns_present := ?_, names_nodup := ?_ }
    · intro c' hc'
      rcases List.mem_append.mp hc' with hc' | hc'
      · exact h.columns_subset c' hc'
      · rwa [List.mem_singleton.mp hc']
    · intro c' hc' hnot
      by_cases hname : c'.name = c.name
      · rw [Definition.eq_of_name_eq hd hc' hc hname]
        exact List.mem_append_right _ List.mem_cons_self
      · exact List.mem_append_left _ (h.columns_present c' hc' (by simp [hname, hnot]))
    · change (t.addColumn c).names.Nodup
      rw [names_addColumn, List.nodup_append]
      refine ⟨h.names_nodup, List.nodup_singleton _, ?_⟩
      rintro n hn m hm rfl
      exact hmem (List.mem_singleton.mp hm ▸ hn)

theorem matches_ensureAll (hd : d.names.Nodup) (hcs : ∀ c ∈ cs, c ∈ d.columns)
    (h : d.Matches (cs.map (·.name)) t.definition) : d.Matches [] (t.ensureAll cs).definition := by
  induction cs generalizing t with
  | nil => exact h
  | cons c cs ih =>
    obtain ⟨hc, hcs⟩ := List.forall_mem_cons.mp hcs
    exact ih hcs (matches_ensure hd hc h)

theorem Sound.ensure (hs : t.Sound) (hc : c.notNull → c.default ≠ .null)
    (hkeys : ∀ key ∈ t.definition.keys, key ⊆ t.names) : (t.ensure c).Sound := by
  rw [Table.ensure]
  split
  · exact hs
  · rename_i hmem
    have hold : ∀ (r : Row), ∀ n ∈ t.names, Function.update r c.name c.default n = r n := by
      intro r n hn
      apply Function.update_of_ne
      rintro rfl
      exact hmem hn
    constructor
    · intro r' hr' c' hc' hn
      obtain ⟨r, hr, rfl⟩ := List.mem_map.mp hr'
      rcases List.mem_append.mp hc' with hc' | hc'
      · rw [hold r _ (Definition.name_mem_names hc')]
        exact hs.filled r hr c' hc' hn
      · obtain rfl := List.mem_singleton.mp hc'
        rw [Function.update_self]
        exact hc hn
    · intro key hkey
      have hsame : ∀ r : Row, key.map (Function.update r c.name c.default) = key.map r := fun r =>
        List.map_congr_left fun n hn => hold r n (hkeys key hkey hn)
      refine List.pairwise_map.mpr ((hs.distinct key hkey).imp ?_)
      intro r r' hdistinct
      rw [hsame r, hsame r']
      exact hdistinct

theorem carries_ensure (hd : d.names.Nodup) (hc : c ∈ d.columns) :
    t.Carries d.AtDefault (t.ensure c) := by
  rw [ensure]
  split
  · exact carries_refl _ t
  · rename_i hmem
    refine ⟨_, rfl, ?_⟩
    intro r _
    constructor
    · intro n hn
      apply Function.update_of_ne
      rintro rfl
      exact hmem hn
    · intro n hn hnot c' hc' he
      rw [names_addColumn, List.mem_append, List.mem_singleton] at hn
      obtain rfl : n = c.name := hn.resolve_left hnot
      rw [Function.update_self, Definition.eq_of_name_eq hd hc' hc he]

theorem carries_ensureAll (hd : d.names.Nodup) (hcs : ∀ c ∈ cs, c ∈ d.columns) :
    t.Carries d.AtDefault (t.ensureAll cs) := by
  induction cs generalizing t with
  | nil => exact carries_refl _ t
  | cons c cs ih =>
    obtain ⟨hc, hcs⟩ := List.forall_mem_cons.mp hcs
    exact (carries_ensure hd hc).trans (ih hcs) (names_subset_ensure t c)
      fun _ _ _ _ _ _ h => h

end Table

end VoxServer.Sql
