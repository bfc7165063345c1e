import VoxServer.Store.DeviceKey

/-! # Upgrading a database

A database of either version is migrated, with every row and reference, exactly if its
devices have the composite key, or can be copied and belong to the users of the sessions
on them.
-/

namespace VoxServer.Migration

open Sql

variable {db db' : Db} {n : String} {t t' : Table}

/-! ### Foreign keys -/

/-- The columns of the foreign keys are in every version of the tables. -/
def References (defs : List (String × Definition)) : Prop :=
  ∀ p ∈ defs, ∀ fk ∈ p.2.foreignKeys,
    (∀ c ∈ fk.columns, c ∈ p.2.names ∧ c ∉ mayLack p.1) ∧
    ∃ q ∈ defs, q.1 = fk.parent ∧ ∀ c ∈ fk.parentColumns, c ∈ q.2.names ∧ c ∉ mayLack q.1

instance (defs : List (String × Definition)) : Decidable (References defs) :=
  inferInstanceAs (Decidable (∀ p ∈ defs, ∀ fk ∈ p.2.foreignKeys,
    (∀ c ∈ fk.columns, c ∈ p.2.names ∧ c ∉ mayLack p.1) ∧
    ∃ q ∈ defs, q.1 = fk.parent ∧ ∀ c ∈ fk.parentColumns, c ∈ q.2.names ∧ c ∉ mayLack q.1))

theorem references_schema : References schema := by decide

theorem references_oldSchema : References oldSchema := by decide

theorem Lossless.exists_tables (h : Lossless db db') (hn : n ∈ schema.map Prod.fst) :
    ∃ t t' added, db.table? n = some t ∧ db'.table? n = some t' ∧ t.Carries added t' := by
  obtain ⟨p, hp, rfl⟩ := List.mem_map.mp hn
  obtain ⟨t, t', ht, ht', hc⟩ := h p hp
  exact ⟨t, t', _, ht, ht', hc⟩

theorem refers_of_lossless {defs : List (String × Definition)} (hl : Legacy db)
    (hdefs : Has defs mayLack db) (hrefs : References defs) (h : Lossless db db')
    {p : String × Definition} (hp : p ∈ defs) {fk : ForeignKey} (hfk : fk ∈ p.2.foreignKeys)
    {r r' : Row} (ht : db.table? p.1 = some t) (hr : r ∈ t.rows)
    (hkeep : ∀ n ∈ t.names, r' n = r n) : db'.Refers fk r' := by
  obtain ⟨hcolumns, q, hq, he, hparent⟩ := hrefs p hp fk hfk
  obtain ⟨u, hu, hmatches⟩ := hdefs p hp
  obtain rfl : u = t := Option.some.inj (hu.symm.trans ht)
  have hsame : fk.columns.map r' = fk.columns.map r := by
    apply List.map_congr_left
    intro c hc
    obtain ⟨hname, hlack⟩ := hcolumns c hc
    exact hkeep c (hmatches.mem_names_of_not_missing hname hlack)
  rcases Db.foreignKeysHold_iff.mp hl.holds _ u ht fk (hmatches.foreignKeys ▸ hfk) r hr with
    hnull | ⟨s, hs, hkey⟩
  · left
    rwa [hsame]
  · right
    obtain ⟨v, hv, hmatches'⟩ := hdefs q hq
    rw [he] at hv
    obtain ⟨v', w, added, hv', hw, hc⟩ := h.exists_tables (hl.known _ v hv)
    obtain rfl : v' = v := Option.some.inj (hv'.symm.trans hv)
    rw [Db.rows_eq hv] at hs
    obtain ⟨s', hs', hkeep'⟩ := hc.exists_row hs
    refine ⟨s', by rwa [Db.rows_eq hw], ?_⟩
    rw [hsame, ← hkey]
    apply List.map_congr_left
    intro c hc
    obtain ⟨hname, hlack⟩ := hparent c hc
    exact hkeep' c (hmatches'.mem_names_of_not_missing hname hlack)

theorem holds_of_refers (hcur : Current db') (h : Lossless db db')
    (hrefers : ∀ p ∈ schema, ∀ fk ∈ p.2.foreignKeys, ∀ t t', db.table? p.1 = some t →
      db'.table? p.1 = some t' → p.2.Matches [] t'.definition →
      ∀ r ∈ t.rows, ∀ r' ∈ t'.rows, (∀ n ∈ t.names, r' n = r n) →
      (∀ n ∈ t'.names, n ∉ t.names → Added db p n r (r' n)) → db'.Refers fk r') :
    db'.ForeignKeysHold := by
  apply Db.foreignKeysHold_iff.mpr
  intro n t' ht' fk hfk r' hr'
  obtain ⟨p, hp, rfl⟩ := List.mem_map.mp (hcur.known n t' ht')
  obtain ⟨u, hu, hmatches⟩ := hcur.tables p hp
  obtain rfl : u = t' := Option.some.inj (hu.symm.trans ht')
  obtain ⟨t, v, ht, hv, hc⟩ := h p hp
  obtain rfl : v = u := Option.some.inj (hv.symm.trans hu)
  obtain ⟨r, hr, hkeep, hadd⟩ := hc.exists_of_mem hr'
  exact hrefers p hp fk (hmatches.foreignKeys ▸ hfk) t v ht hv hmatches r hr r' hr' hkeep hadd

theorem holds_of_composite (hl : Legacy db) (hshape : Has schema mayLack db) (hcur : Current db')
    (h : Lossless db db') : db'.ForeignKeysHold := by
  apply holds_of_refers hcur h
  intro p hp fk hfk t t' ht _ _ r hr r' _ hkeep _
  exact refers_of_lossless hl hshape references_schema h hp hfk ht hr hkeep

def ownedDevice (user device : String) : ForeignKey :=
  ⟨[user, device], "devices", ["user_id", "device_id"]⟩

theorem reference_cases : ∀ p ∈ schema, ∀ fk ∈ p.2.foreignKeys,
    (∃ q ∈ oldSchema, q.1 = p.1 ∧ fk ∈ q.2.foreignKeys) ∨
    (∃ o ∈ ownerColumns, o.1 = p.1 ∧ fk = ownedDevice o.2.1 o.2.2) ∨
    p.1 = "sessions" ∧ fk = ownedDevice "user_id" "device_id" := by
  decide

theorem owner_columns : ∀ o ∈ ownerColumns, ownerColumns.lookup o.1 = some o.2 ∧
    (∀ p ∈ schema, p.1 = o.1 → o.2.1 ∈ p.2.names) ∧
    ∃ q ∈ oldSchema, q.1 = o.1 ∧ o.2.1 ∉ q.2.names ∧ o.2.2 ∈ q.2.names ∧ o.2.2 ∉ mayLack q.1 := by
  decide

theorem user_and_device_mem {p : String × Definition}
    (hp : p ∈ [("devices", oldDevices), ("sessions", oldSessions)])
    (hmatches : p.2.Matches (mayLack p.1) t.definition) :
    "user_id" ∈ t.names ∧ "device_id" ∈ t.names := by
  have hall : ∀ p ∈ [("devices", oldDevices), ("sessions", oldSessions)],
      ∀ n ∈ ["user_id", "device_id"], n ∈ p.2.names ∧ n ∉ mayLack p.1 := by decide
  have hmem : ∀ n ∈ ["user_id", "device_id"], n ∈ t.names := fun n hn =>
    hmatches.mem_names_of_not_missing (hall p hp n hn).1 (hall p hp n hn).2
  exact ⟨hmem _ (by simp), hmem _ (by simp)⟩

section

variable (hold : Has oldSchema mayLack db) (h : Lossless db db')

include hold h

theorem exists_rows {p : String × Definition}
    (hp : p ∈ [("devices", oldDevices), ("sessions", oldSessions)]) :
    (∀ r ∈ db.rows p.1, ∃ r' ∈ db'.rows p.1,
      r' "user_id" = r "user_id" ∧ r' "device_id" = r "device_id") ∧
    ∀ r' ∈ db'.rows p.1, ∃ r ∈ db.rows p.1,
      r' "user_id" = r "user_id" ∧ r' "device_id" = r "device_id" := by
  have hsub : ∀ p ∈ [("devices", oldDevices), ("sessions", oldSessions)],
      p ∈ oldSchema ∧ p.1 ∈ schema.map Prod.fst := by decide
  obtain ⟨hp₀, hn⟩ := hsub p hp
  obtain ⟨t, ht, hmatches⟩ := hold p hp₀
  obtain ⟨u, t', _, hu, ht', hc⟩ := h.exists_tables hn
  obtain rfl : u = t := Option.some.inj (hu.symm.trans ht)
  obtain ⟨huser, hdevice⟩ := user_and_device_mem hp hmatches
  rw [Db.rows_eq ht, Db.rows_eq ht']
  constructor
  · intro r hr
    obtain ⟨r', hr', hkeep⟩ := hc.exists_row hr
    exact ⟨r', hr', hkeep _ huser, hkeep _ hdevice⟩
  · intro r' hr'
    obtain ⟨r, hr, hkeep, -⟩ := hc.exists_of_mem hr'
    exact ⟨r, hr, hkeep _ huser, hkeep _ hdevice⟩

theorem refers_ownedDevice {user device : String} {q r : Row} (hq : q ∈ db.rows "devices")
    (huser : r user = q "user_id") (hdevice : r device = q "device_id") :
    db'.Refers (ownedDevice user device) r := by
  obtain ⟨q', hq', huser', hdevice'⟩ :=
    (exists_rows hold h (p := ("devices", oldDevices)) (by simp)).1 q hq
  right
  refine ⟨q', hq', ?_⟩
  simp [ownedDevice, huser, hdevice, huser', hdevice']

/-- If the foreign keys hold afterwards, the sessions were on devices of their users. -/
theorem owned_of_holds (hl : Legacy db) (hcur : Current db') (hholds : db'.ForeignKeysHold) :
    ∀ r ∈ db.rows "sessions", ∃ q ∈ db.rows "devices",
      q "user_id" = r "user_id" ∧ q "device_id" = r "device_id" := by
  intro r hr
  obtain ⟨r', hr', huser, hdevice⟩ :=
    (exists_rows hold h (p := ("sessions", oldSessions)) (by simp)).1 r hr
  obtain ⟨t, ht, hmatches⟩ := hold ("sessions", oldSessions) (by simp [oldSchema])
  have hrequired : ∀ n ∈ ["user_id", "device_id"], r n ≠ .null := by
    have hall : ∀ n ∈ ["user_id", "device_id"], (Column.text n).required ∈ oldSessions.columns ∧
        n ∉ mayLack "sessions" := by decide
    intro n hn
    obtain ⟨hcol, hlack⟩ := hall n hn
    rw [Db.rows_eq ht] at hr
    exact (hl.sound _ _ ht).filled r hr _ (hmatches.columns_present _ hcol hlack) rfl
  obtain ⟨u, hu, hm⟩ := hcur.tables ("sessions", sessions) (by simp [schema])
  have hfk : ownedDevice "user_id" "device_id" ∈ u.definition.foreignKeys := by
    rw [hm.foreignKeys]
    decide
  rw [Db.rows_eq hu] at hr'
  rcases Db.foreignKeysHold_iff.mp hholds _ u hu _ hfk r' hr' with hnull | ⟨q', hq', hkey⟩
  · simp only [ownedDevice, List.map_cons, List.map_nil, List.mem_cons, List.not_mem_nil,
      or_false, huser, hdevice] at hnull
    rcases hnull with hnull | hnull
    · exact absurd hnull.symm (hrequired _ (by simp))
    · exact absurd hnull.symm (hrequired _ (by simp))
  · obtain ⟨q, hq, hquser, hqdevice⟩ :=
      (exists_rows hold h (p := ("devices", oldDevices)) (by simp)).2 q' hq'
    simp only [ownedDevice, List.map_cons, List.map_nil, List.cons.injEq, and_true, huser,
      hdevice, hquser, hqdevice] at hkey
    exact ⟨q, hq, hkey⟩

/-- If the sessions were on devices of their users, the foreign keys hold afterwards. -/
theorem holds_of_owned (hl : Legacy db) (hcur : Current db')
    (howned : ∀ r ∈ db.rows "sessions", ∃ q ∈ db.rows "devices",
      q "user_id" = r "user_id" ∧ q "device_id" = r "device_id") : db'.ForeignKeysHold := by
  apply holds_of_refers hcur h
  intro p hp fk hfk t t' ht ht' hm r hr r' hr' hkeep hadd
  rcases reference_cases p hp fk hfk with ⟨q, hq, he, hmem⟩ | ⟨o, ho, he, rfl⟩ | ⟨he, rfl⟩
  · exact refers_of_lossless hl hold references_oldSchema h hq hmem (he ▸ ht) hr hkeep
  · obtain ⟨hlookup, hnew, q, hq, hqo, huser, hdevice, hlack⟩ := owner_columns o ho
    obtain ⟨v, hv, hmatches⟩ := hold q hq
    obtain rfl : v = t := Option.some.inj (hv.symm.trans (by rw [hqo, he, ht]))
    have hmissing : o.2.1 ∉ v.names := fun hmem => huser (hmatches.names_subset hmem)
    have hthere : o.2.1 ∈ t'.names :=
      hm.mem_names_of_not_missing (hnew p hp he.symm) List.not_mem_nil
    have hvalue := hadd _ hthere hmissing
    rw [he] at hlookup
    simp only [Added, hlookup, if_true] at hvalue
    obtain ⟨s, hs, hid, howner⟩ := hvalue
    apply refers_ownedDevice hold h hs howner
    rw [hkeep _ (hmatches.mem_names_of_not_missing hdevice hlack), hid]
  · rw [he] at ht'
    obtain ⟨r₀, hr₀, huser, hdevice⟩ :=
      (exists_rows hold h (p := ("sessions", oldSessions)) (by simp)).2 r' (by rwa [Db.rows_eq ht'])
    obtain ⟨q, hq, huser', hdevice'⟩ := howned r₀ hr₀
    exact refers_ownedDevice hold h hq (huser.trans huser'.symm) (hdevice.trans hdevice'.symm)

end

/-! ### The migration -/

theorem migrated_of_current (hcur : Current db') (h : Lossless db db')
    (hholds : db'.ForeignKeysHold) (hon : db'.enforced = true) : Migrated db db' :=
  ⟨hcur, h, hholds, hon, createSchema_of_current hcur⟩

/-- A database of either version is migrated exactly if it has the composite key, or its
devices can be copied and are owned by the users of the sessions on them. -/
theorem createSchema_migrates_iff (db : Db) (hl : Legacy db) :
    (∃ db', createSchema db = .ok db' ∧ Migrated db db') ↔ Migratable db := by
  rcases hl.shape with hshape | ⟨hold, horder⟩
  · obtain ⟨t, ht, hmatches⟩ := hshape ("devices", devices) (by simp [schema])
    have hcur := current_completed hshape hl.known
    have hloss := lossless_completed hshape
    constructor
    · intro _
      exact .inl ⟨t, ht, hmatches.primaryKey⟩
    · intro _
      refine ⟨_, createSchema_of_composite hshape hl.indexes, ?_⟩
      apply migrated_of_current hcur hloss (holds_of_composite hl hshape hcur hloss)
      rw [completed, Db.enforced_ensureAll]
      exact (Db.enforced_ensure _).trans hl.enforced
  · obtain ⟨t, ht, hmatches⟩ := hold ("devices", oldDevices) (by simp [oldSchema])
    constructor
    · rintro ⟨db', hok, hm⟩
      obtain ⟨hcopy, hnull⟩ := copyable_of_createSchema hl hold hok
      exact .inr ⟨hcopy, hnull, owned_of_holds hold hm.lossless hl hm.current hm.holds⟩
    · rintro (⟨u, hu, hkey⟩ | ⟨hcopy, hnull, howned⟩)
      · obtain rfl : u = t := Option.some.inj ((Option.mem_def.mp hu).symm.trans ht)
        rw [hmatches.primaryKey] at hkey
        exact absurd hkey (by decide)
      · obtain ⟨db', hok, hcur, hloss, hon⟩ := createSchema_of_copyable hl hold horder hcopy hnull
        exact ⟨db', hok, migrated_of_current hcur hloss
          (holds_of_owned hold hloss hl hcur howned) hon⟩

def row (values : List (String × Value)) : Row := fun n => (values.lookup n).getD .null

/-- A database under the key of the device alone: one user with a device, a prekey and a
session on it, and an envelope that waits for it. -/
def firstVersion (deviceTable : Definition) : Db where
  tables := [
    ("users", ⟨users, [row [("user_id", .text "u"), ("username", .text "ada"),
      ("password_salt", .text "s"), ("password_verifier", .text "v"), ("created_at", .integer 1),
      ("sync_key_version", .integer 0), ("wrapped_sync_key", .text "k"),
      ("sync_wrap_salt", .text "s"), ("sync_wrap_params", .text "p")]]⟩),
    ("devices", ⟨deviceTable, [row [("device_id", .text "d"), ("user_id", .text "u"),
      ("device_label", .text "phone"), ("created_at", .integer 1),
      ("last_seen_at", .integer 2)]]⟩),
    ("one_time_prekeys", ⟨oldOneTimePrekeys, [row [("prekey_id", .text "k"),
      ("device_id", .text "d"), ("prekey_public", .text "p")]]⟩),
    ("sessions", ⟨oldSessions, [row [("session_id", .text "x"), ("user_id", .text "u"),
      ("device_id", .text "d"), ("access_token_hash", .text "a"),
      ("refresh_token_hash", .text "r"), ("access_expires_at", .integer 9),
      ("refresh_expires_at", .integer 9), ("created_at", .integer 1)]]⟩),
    ("conversations", ⟨conversations, [row [("conversation_id", .text "c"), ("type", .integer 0),
      ("created_by", .text "u"), ("created_at", .integer 1), ("membership_version", .integer 1)]]⟩),
    ("conversation_members", ⟨conversationMembers, []⟩),
    ("channel_subscriptions", ⟨channelSubscriptions, []⟩),
    ("encrypted_envelopes", ⟨oldEncryptedEnvelopes, [row [("envelope_id", .text "e"),
      ("conversation_id", .text "c"), ("sender_device_id", .text "d"), ("ciphertext", .text "t"),
      ("server_timestamp", .integer 3), ("envelope_type", .integer 0)]]⟩),
    ("delivery_state", ⟨oldDeliveryState, [row [("envelope_id", .text "e"),
      ("target_device_id", .text "d"), ("queued_at", .integer 3)]]⟩),
    ("attachment_metadata", ⟨attachmentMetadata, []⟩),
    ("sync_records", ⟨syncRecords, []⟩)]
  indexes := []
  enforced := true

def unlabelledDevices : Definition :=
  { oldDevices with columns := oldDevices.columns.filter fun c => c.name ≠ "device_label" }

theorem legacy_firstVersion {d : Definition} (hd : d ∈ [oldDevices, unlabelledDevices]) :
    Legacy (firstVersion d) where
  enforced := rfl
  known _ _ ht := List.mem_map_of_mem (f := Prod.fst) (Db.mem_of_table? ht)
  indexes := .inl rfl
  sound n t ht := by
    have hall : ∀ d ∈ [oldDevices, unlabelledDevices], ∀ p ∈ (firstVersion d).tables,
        p.2.Sound := by decide
    exact hall d hd _ (Db.mem_of_table? ht)
  holds := by
    have hall : ∀ d ∈ [oldDevices, unlabelledDevices], (firstVersion d).ForeignKeysHold := by decide
    exact hall d hd
  shape := by
    have hall : ∀ d ∈ [oldDevices, unlabelledDevices], Has oldSchema mayLack (firstVersion d) := by
      decide
    exact .inr ⟨hall d hd, rfl⟩

theorem firstVersion_migrates : ∃ db', createSchema (firstVersion oldDevices) = .ok db' ∧
    Migrated (firstVersion oldDevices) db' := by
  apply (createSchema_migrates_iff _ (legacy_firstVersion (by simp))).mpr
  right
  decide

/-- Without the labels, the copy of the devices throws. -/
theorem unlabelled_not_migrated : Legacy (firstVersion unlabelledDevices) ∧
    createSchema (firstVersion unlabelledDevices) = .error (.noSuchColumn "device_label") ∧
    ¬ ∃ db', createSchema (firstVersion unlabelledDevices) = .ok db' ∧
      Migrated (firstVersion unlabelledDevices) db' := by
  have hthrows : createSchema (firstVersion unlabelledDevices) =
      .error (.noSuchColumn "device_label") := rfl
  refine ⟨legacy_firstVersion (by simp), hthrows, ?_⟩
  rintro ⟨db', hok, -⟩
  rw [hthrows] at hok
  cases hok

end VoxServer.Migration
