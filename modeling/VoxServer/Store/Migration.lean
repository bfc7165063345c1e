import VoxServer.Store.CreateSchema

/-! # What the migration keeps

On a database of this version or of the one before, with some of the later columns
missing, `CreateSchema` ends in the current schema with all rows. The copy of the
devices fails if their table lacks a column, and sessions are copied as they are, so that
a session of another user than the owner of its device refers to nothing.
-/

namespace VoxServer.Migration

open Sql

def schema : List (String × Definition) := [
  ("users", users), ("devices", devices), ("one_time_prekeys", oneTimePrekeys),
  ("sessions", sessions), ("conversations", conversations),
  ("conversation_members", conversationMembers),
  ("channel_subscriptions", channelSubscriptions),
  ("encrypted_envelopes", encryptedEnvelopes), ("delivery_state", deliveryState),
  ("attachment_metadata", attachmentMetadata), ("sync_records", syncRecords)]

/-! ### The tables under the key of the device alone -/

def deviceReference (column : String) : ForeignKey := ⟨[column], "devices", ["device_id"]⟩

def oldDevices : Definition :=
  { devices with
    columns := .text "device_id" :: devices.columns.filter fun c => c.name ≠ "device_id"
    primaryKey := ["device_id"] }

def oldOneTimePrekeys : Definition :=
  { oneTimePrekeys with
    columns := oneTimePrekeys.columns.filter fun c => c.name ≠ "user_id"
    foreignKeys := [deviceReference "device_id"] }

def oldSessions : Definition :=
  { sessions with
    foreignKeys := [⟨["user_id"], "users", ["user_id"]⟩, deviceReference "device_id"] }

def oldEncryptedEnvelopes : Definition :=
  { encryptedEnvelopes with
    columns := encryptedEnvelopes.columns.filter fun c => c.name ≠ "sender_user_id"
    foreignKeys := [
      ⟨["conversation_id"], "conversations", ["conversation_id"]⟩,
      deviceReference "sender_device_id"] }

def oldDeliveryState : Definition :=
  { deliveryState with
    columns := deliveryState.columns.filter fun c => c.name ≠ "target_user_id"
    primaryKey := ["envelope_id", "target_device_id"]
    foreignKeys := [
      ⟨["envelope_id"], "encrypted_envelopes", ["envelope_id"]⟩,
      deviceReference "target_device_id"] }

def oldSchema : List (String × Definition) := [
  ("users", users), ("devices", oldDevices), ("one_time_prekeys", oldOneTimePrekeys),
  ("sessions", oldSessions), ("conversations", conversations),
  ("conversation_members", conversationMembers),
  ("channel_subscriptions", channelSubscriptions),
  ("encrypted_envelopes", oldEncryptedEnvelopes), ("delivery_state", oldDeliveryState),
  ("attachment_metadata", attachmentMetadata), ("sync_records", syncRecords)]

def laterColumns : List (String × Column) :=
  ("encrypted_envelopes", .integer "ordering_epoch") :: addedColumns

/-- The columns that a table of an earlier version may lack. -/
def mayLack (n : String) : List String := (Db.columnsFor n laterColumns).map (·.name)

/-- The database has the tables, each possibly without some columns. -/
def Has (defs : List (String × Definition)) (missing : String → List String) (db : Db) : Prop :=
  ∀ p ∈ defs, ∃ t ∈ db.table? p.1, p.2.Matches (missing p.1) t.definition

instance (defs : List (String × Definition)) (missing : String → List String) (db : Db) :
    Decidable (Has defs missing db) :=
  inferInstanceAs (Decidable (∀ p ∈ defs, ∃ t ∈ db.table? p.1,
    p.2.Matches (missing p.1) t.definition))

/-- A database of this version or of the one before, as a connection opens it. -/
structure Legacy (db : Db) : Prop where
  enforced : db.enforced = true
  known : ∀ n t, db.table? n = some t → n ∈ schema.map Prod.fst
  indexes : db.indexes = [] ∨ db.indexes = [syncIndex]
  sound : ∀ n t, db.table? n = some t → t.Sound
  holds : db.ForeignKeysHold
  shape : Has schema mayLack db ∨ Has oldSchema mayLack db ∧ db.names "sessions" = oldSessions.names

/-- The column of a table that the rebuilding adds, and the one with the device. -/
def ownerColumns : List (String × String × String) := [
  ("one_time_prekeys", "user_id", "device_id"),
  ("encrypted_envelopes", "sender_user_id", "sender_device_id"),
  ("delivery_state", "target_user_id", "target_device_id")]

/-- What a column that a row did not have holds: the owner of its device, or the default. -/
def Added (db : Db) (p : String × Definition) (n : String) (r : Row) (v : Value) : Prop :=
  match ownerColumns.lookup p.1 with
  | some (user, device) =>
    if n = user then ∃ q ∈ db.rows "devices", q "device_id" = r device ∧ v = q "user_id"
    else p.2.AtDefault n r v
  | none => p.2.AtDefault n r v

/-- The schema is the current one, with the columns of a table in any order. -/
structure Current (db : Db) : Prop where
  tables : Has schema (fun _ => []) db
  known : ∀ n t, db.table? n = some t → n ∈ schema.map Prod.fst
  indexes : db.indexes = [syncIndex]

/-- Every row is there, with its values. -/
def Lossless (db db' : Db) : Prop :=
  ∀ p ∈ schema, ∃ t t', db.table? p.1 = some t ∧ db'.table? p.1 = some t' ∧
    t.Carries (Added db p) t'

structure Migrated (db db' : Db) : Prop where
  current : Current db'
  lossless : Lossless db db'
  holds : db'.ForeignKeysHold
  enforced : db'.enforced = true
  again : createSchema db' = .ok db'

/-- The devices have the composite key, or can be copied and own the sessions on them. -/
def Migratable (db : Db) : Prop :=
  (∃ t ∈ db.table? "devices", t.definition.primaryKey = ["user_id", "device_id"]) ∨
    (∀ n ∈ devices.names, n ∈ db.names "devices") ∧
    (∀ r ∈ db.rows "devices", r "device_id" ≠ .null) ∧
    ∀ r ∈ db.rows "sessions", ∃ q ∈ db.rows "devices",
      q "user_id" = r "user_id" ∧ q "device_id" = r "device_id"

/-! ### Columns -/

variable {db db' : Db} {n : String} {t : Table}

theorem tryExec_addColumn (h : db.table? n = some t) {c : Column}
    (hc : c.notNull → c.default ≠ .null) : tryExec (.addColumn n c) db = .ok (db.ensure n c) := by
  have hword : "duplicate".toList <:+: (Error.duplicateColumn c.name).message.toList := by
    have hmessage : (Error.duplicateColumn c.name).message = "duplicate column name: " ++ c.name :=
      rfl
    have htext : "duplicate column name: ".toList =
        "duplicate".toList ++ " column name: ".toList := rfl
    rw [hmessage, String.toList_append, htext, List.append_assoc]
    exact (List.prefix_append _ _).isInfix
  rcases Db.exec_addColumn h hc with he | ⟨he, hself⟩
  · simp only [tryExec, he]
  · simp only [tryExec, he, hself, hword, if_true]

theorem exists_table_ensure (h : ∃ t, db.table? n = some t) (m : String) (c : Column) :
    ∃ t, (db.ensure m c).table? n = some t := by
  obtain ⟨t, ht⟩ := h
  rw [Db.table?_ensure]
  split
  · exact ⟨_, by rw [ht]; rfl⟩
  · exact ⟨t, ht⟩

theorem foldlM_tryExec {l : List (String × Column)} (ht : ∀ p ∈ l, ∃ t, db.table? p.1 = some t)
    (hc : ∀ p ∈ l, p.2.notNull → p.2.default ≠ .null) :
    l.foldlM (fun db p => tryExec (.addColumn p.1 p.2) db) db = .ok (db.ensureAll l) := by
  induction l generalizing db with
  | nil => rfl
  | cons p l ih =>
    obtain ⟨⟨t, hp⟩, hl⟩ := List.forall_mem_cons.mp ht
    obtain ⟨hpc, hlc⟩ := List.forall_mem_cons.mp hc
    rw [List.foldlM_cons, tryExec_addColumn hp hpc]
    exact ih (fun q hq => exists_table_ensure (hl q hq) p.1 p.2) hlc

/-- The database when the migration of the key begins. -/
def prepared (db : Db) : Db :=
  { db.ensure "encrypted_envelopes" (.integer "ordering_epoch") with indexes := [syncIndex] }

theorem table?_prepared : (prepared db).table? n =
    (db.ensure "encrypted_envelopes" (.integer "ordering_epoch")).table? n := rfl

theorem table?_prepared_of_ne (hn : n ≠ "encrypted_envelopes") :
    (prepared db).table? n = db.table? n := by
  rw [table?_prepared, Db.table?_ensure, if_neg hn]

def creation (p : String × Definition) : Statement := .createTableIfNotExists p.1 p.2

theorem run_creation {l : List (String × Definition)} (h : ∀ p ∈ l, ∃ t, db.table? p.1 = some t) :
    db.run (l.map creation) = .ok db := by
  apply Db.run_eq_self
  intro s hs
  obtain ⟨p, hp, rfl⟩ := List.mem_map.mp hs
  obtain ⟨t, ht⟩ := h p hp
  exact Db.exec_createTableIfNotExists ht p.2

theorem exec_syncIndex (ht : ∃ t, db.table? "sync_records" = some t)
    (hi : db.indexes = [] ∨ db.indexes = [syncIndex]) :
    db.exec (.createIndexIfNotExists syncIndex) = .ok { db with indexes := [syncIndex] } := by
  obtain ⟨t, ht⟩ := ht
  have ht : (db.table? syncIndex.table).isNone = false := by
    rw [show syncIndex.table = "sync_records" from rfl, ht]
    rfl
  rcases hi with hi | hi
  · simp [Db.exec, hi, ht]
  · have hany : db.indexes.any (·.name = syncIndex.name) := by simp [hi]
    rw [Db.exec, if_pos hany, ← hi]

theorem createSchema_eq (ht : ∀ p ∈ schema, ∃ t, db.table? p.1 = some t)
    (hi : db.indexes = [] ∨ db.indexes = [syncIndex]) :
    createSchema db = migrateLegacySchema (prepared db) := by
  have htaken : ∀ p ∈ schema.take 8, ∃ t, db.table? p.1 = some t := fun p hp =>
    ht p (List.mem_of_mem_take hp)
  obtain ⟨t, henvelopes⟩ := ht ("encrypted_envelopes", encryptedEnvelopes) (by simp [schema])
  have hepoch := tryExec_addColumn (c := .integer "ordering_epoch") henvelopes
    (by simp [Column.integer])
  have hdropped : ∀ p ∈ schema.drop 8, ∃ t,
      (db.ensure "encrypted_envelopes" (.integer "ordering_epoch")).table? p.1 = some t :=
    fun p hp => exists_table_ensure (ht p (List.mem_of_mem_drop hp)) _ _
  have hindex : (db.ensure "encrypted_envelopes" (.integer "ordering_epoch")).exec
      (.createIndexIfNotExists syncIndex) = .ok (prepared db) :=
    exec_syncIndex (hdropped ("sync_records", syncRecords) (by simp [schema]))
      (by rwa [Db.indexes_ensure])
  change (db.run ((schema.take 8).map creation)).bind (fun db => (tryExec _ db).bind fun db =>
    (db.run ((schema.drop 8).map creation ++ [.createIndexIfNotExists syncIndex])).bind
      migrateLegacySchema) = _
  rw [run_creation htaken, Except.bind, hepoch, Except.bind, Db.run_append, run_creation hdropped,
    Except.bind, Db.run_cons, hindex]
  rfl

theorem exists_table_of_later {p : String × Column} (hp : p ∈ laterColumns)
    (ht : ∀ p ∈ schema, ∃ t, db.table? p.1 = some t) : ∃ t, db.table? p.1 = some t := by
  have hall : ∀ p ∈ laterColumns, ∃ q ∈ schema, q.1 = p.1 := by decide
  obtain ⟨q, hq, he⟩ := hall p hp
  exact he ▸ ht q hq

theorem migrateLegacySchema_eq (h : migrateDevicesCompositePrimaryKey db = .ok db')
    (ht : ∀ p ∈ schema, ∃ t, db'.table? p.1 = some t) :
    migrateLegacySchema db = .ok (db'.ensureAll addedColumns) := by
  rw [migrateLegacySchema, h]
  exact foldlM_tryExec (fun p hp => exists_table_of_later (List.mem_cons_of_mem _ hp) ht)
    (by decide)

theorem migrateDevices_of_composite (ht : db.table? "devices" = some t)
    (hk : t.definition.primaryKey = ["user_id", "device_id"]) :
    migrateDevicesCompositePrimaryKey db = .ok db := by
  simp [migrateDevicesCompositePrimaryKey, ht, hk]

/-! ### Databases with the composite key -/

theorem schema_columns : ∀ p ∈ schema, p.2.names.Nodup ∧
    ∀ c ∈ Db.columnsFor p.1 laterColumns, c ∈ p.2.columns := by
  decide

theorem Has.exists_table {missing : String → List String} (h : Has schema missing db) :
    ∀ p ∈ schema, ∃ t, db.table? p.1 = some t := by
  intro p hp
  obtain ⟨t, ht, -⟩ := h p hp
  exact ⟨t, ht⟩

def completed (db : Db) : Db := (prepared db).ensureAll addedColumns

theorem table?_completed : (completed db).table? n =
    (db.table? n).map (·.ensureAll (Db.columnsFor n laterColumns)) := by
  calc (completed db).table? n
    _ = ((db.ensure "encrypted_envelopes" (.integer "ordering_epoch")).ensureAll
          addedColumns).table? n := by
      rw [completed, Db.table?_ensureAll, Db.table?_ensureAll, table?_prepared]
    _ = (db.ensureAll laterColumns).table? n := by rw [laterColumns, Db.ensureAll_cons]
    _ = (db.table? n).map (·.ensureAll (Db.columnsFor n laterColumns)) := Db.table?_ensureAll

theorem createSchema_of_composite {missing : String → List String} (h : Has schema missing db)
    (hi : db.indexes = [] ∨ db.indexes = [syncIndex]) :
    createSchema db = .ok (completed db) := by
  have ht := h.exists_table
  have hprepared : ∀ p ∈ schema, ∃ t, (prepared db).table? p.1 = some t := fun p hp =>
    exists_table_ensure (ht p hp) _ _
  obtain ⟨t, hdevices, hmatches⟩ := h ("devices", devices) (by simp [schema])
  have hdevices : (prepared db).table? "devices" = some t :=
    (table?_prepared_of_ne (by decide)).trans hdevices
  rw [createSchema_eq ht hi]
  exact migrateLegacySchema_eq (migrateDevices_of_composite hdevices hmatches.primaryKey) hprepared

theorem current_completed (h : Has schema mayLack db)
    (hknown : ∀ n t, db.table? n = some t → n ∈ schema.map Prod.fst) : Current (completed db) where
  tables := by
    intro p hp
    obtain ⟨t, ht, hmatches⟩ := h p hp
    obtain ⟨hnodup, hcolumns⟩ := schema_columns p hp
    exact ⟨_, by rw [table?_completed, ht]; rfl, Table.matches_ensureAll hnodup hcolumns hmatches⟩
  known := by
    intro n t ht
    rw [table?_completed, Option.map_eq_some_iff] at ht
    obtain ⟨u, hu, -⟩ := ht
    exact hknown n u hu
  indexes := Db.indexes_ensureAll

theorem added_of_atDefault {p : String × Definition} (hp : p ∈ schema)
    (hmatches : p.2.Matches (mayLack p.1) t.definition) {c : String} (hc : c ∉ t.names) {r : Row}
    {v : Value} (h : p.2.AtDefault c r v) : Added db p c r v := by
  have howners : ∀ p ∈ schema, ∀ o ∈ ownerColumns.lookup p.1,
      o.1 ∈ p.2.names ∧ o.1 ∉ mayLack p.1 := by decide
  rw [Added]
  split
  · rename_i user device ho
    obtain ⟨hname, hlack⟩ := howners p hp (user, device) ho
    rw [if_neg (by rintro rfl; exact hc (hmatches.mem_names_of_not_missing hname hlack))]
    exact h
  · exact h

theorem carries_later {p : String × Definition} (hp : p ∈ schema)
    (hmatches : p.2.Matches (mayLack p.1) t.definition) :
    t.Carries (Added db p) (t.ensureAll (Db.columnsFor p.1 laterColumns)) := by
  obtain ⟨hnodup, hcolumns⟩ := schema_columns p hp
  refine (Table.carries_ensureAll hnodup hcolumns).mono ?_
  intro c _ hc r v hv
  exact added_of_atDefault hp hmatches hc hv

theorem lossless_completed (h : Has schema mayLack db) : Lossless db (completed db) := by
  intro p hp
  obtain ⟨t, ht, hmatches⟩ := h p hp
  exact ⟨t, _, ht, by rw [table?_completed, ht]; rfl, carries_later hp hmatches⟩

theorem createSchema_of_current (h : Current db) : createSchema db = .ok db := by
  rw [createSchema_of_composite h.tables (.inr h.indexes), completed]
  have hthere : ∀ p ∈ laterColumns, ∃ t, db.table? p.1 = some t ∧ p.2.name ∈ t.names := by
    have hall : ∀ p ∈ laterColumns, ∃ q ∈ schema, q.1 = p.1 ∧ p.2.name ∈ q.2.names := by decide
    intro p hp
    obtain ⟨q, hq, he, hname⟩ := hall p hp
    obtain ⟨t, ht, hmatches⟩ := h.tables q hq
    exact ⟨t, he ▸ ht, hmatches.mem_names_of_not_missing hname List.not_mem_nil⟩
  obtain ⟨⟨t, ht, hc⟩, hrest⟩ := List.forall_mem_cons.mp hthere
  have hprepared : prepared db = db := by
    rw [prepared, Db.ensure_eq_self ht hc, ← h.indexes]
  rw [hprepared, Db.ensureAll_eq_self hrest]

end VoxServer.Migration
