import VoxServer.Store.Migration

/-! # The composite key of devices

Tables under the key of the device alone are rebuilt one after the other. While that
goes on, a table that is not rebuilt yet keeps its rows. The result holds the old rows with
the owners of their devices, and its foreign keys hold exactly if the sessions belong
to the owners.
-/

namespace VoxServer.Migration

open Sql

variable {db db' : Db} {n : String} {t : Table}

/-! ### Rebuilding the tables -/

def rebuiltNames : List String :=
  ["devices", "one_time_prekeys", "sessions", "encrypted_envelopes", "delivery_state"]

/-- The table while others are rebuilt: only its references to them change. -/
structure Unrebuilt (t t' : Table) : Prop where
  rows : t'.rows = t.rows
  columns : t'.definition.columns = t.definition.columns
  keys : t'.definition.keys = t.definition.keys
  eq_self : (∀ fk ∈ t.definition.foreignKeys, fk.parent ∉ rebuiltNames) → t' = t

namespace Unrebuilt

variable {t' u : Table}

theorem refl (t : Table) : Unrebuilt t t := ⟨rfl, rfl, rfl, fun _ => rfl⟩

theorem names (h : Unrebuilt t t') : t'.names = t.names :=
  congrArg (List.map Column.name) h.columns

theorem retarget (h : Unrebuilt t t') (hn : n ∈ rebuiltNames) (m : String) :
    Unrebuilt t (t'.retarget n m) where
  rows := h.rows
  columns := h.columns
  keys := h.keys
  eq_self hfk := by
    have hself : t.definition.retarget n m = t.definition := by
      apply Definition.retarget_eq_self
      rintro fk hmem rfl
      exact hfk fk hmem hn
    rw [h.eq_self hfk, Table.retarget, hself]

theorem sound (h : Unrebuilt t t') (hs : t.Sound) : t'.Sound where
  filled := by rw [h.rows, h.columns]; exact hs.filled
  distinct := by rw [h.rows, h.keys]; exact hs.distinct

theorem carries {added : String → Row → Value → Prop} (h : Unrebuilt t t')
    (hc : t'.Carries added u) : t.Carries added u := by
  rw [Table.Carries, h.rows, h.names] at hc
  exact hc

end Unrebuilt

/-- The transaction, with some tables rebuilt. -/
structure Stage (db₀ : Db) (done : List (String × Table)) (db : Db) : Prop where
  off : db.enforced = false
  indexes : db.indexes = [syncIndex]
  known : ∀ n ∉ schema.map Prod.fst, db.table? n = none
  rebuilt : ∀ p ∈ done, db.table? p.1 = some p.2
  rest : ∀ n t, n ∉ done.map Prod.fst → db₀.table? n = some t →
    ∃ t', db.table? n = some t' ∧ Unrebuilt t t'

theorem Stage.step {db₀ : Db} {done : List (String × Table)} (h : Stage db₀ done db)
    (n old : String) (d : Definition) (hn : n ∈ rebuiltNames) (hold : old ∉ schema.map Prod.fst)
    (hdone : ∀ p ∈ done, p.1 ≠ n ∧ ∀ fk ∈ p.2.definition.foreignKeys, fk.parent ≠ n)
    (rows : List Row) : Stage db₀ ((n, ⟨d, rows⟩) :: done) (db.rebuilt n old d rows) := by
  have hknown : ∀ n ∈ rebuiltNames, n ∈ schema.map Prod.fst ∧ n ≠ syncIndex.table := by decide
  obtain ⟨hmem, hsync⟩ := hknown n hn
  have hne : n ≠ old := fun he => hold (he ▸ hmem)
  have hnone := h.known old hold
  have htable := Db.table?_rebuilt (d := d) hne hnone rows
  refine ⟨h.off, ?_, ?_, ?_, ?_⟩
  · have hsync' : syncIndex.table ≠ old := by
      rintro rfl
      exact hold (by decide)
    change (db.indexes.map _).filter _ = _
    simp [h.indexes, Ne.symm hsync, hsync']
  · intro m hm
    rw [htable, if_neg (by rintro rfl; exact hm hmem), h.known m hm]
    split <;> rfl
  · refine List.forall_mem_cons.mpr ⟨by rw [htable, if_pos rfl], ?_⟩
    intro p hp
    obtain ⟨hpn, hfk⟩ := hdone p hp
    have hpt := h.rebuilt p hp
    have hpo : p.1 ≠ old := by
      intro he
      rw [he, hnone] at hpt
      cases hpt
    rw [htable, if_neg hpn, if_neg hpo, hpt, Option.map_some, Table.retarget,
      Definition.retarget_eq_self hfk]
  · intro m t hm ht
    rw [List.map_cons, List.mem_cons, not_or] at hm
    obtain ⟨t', ht', hu⟩ := h.rest m t hm.2 ht
    have hmo : m ≠ old := by
      rintro rfl
      rw [hnone] at ht'
      cases ht'
    exact ⟨_, by rw [htable, if_neg hm.1, if_neg hmo, ht']; rfl, hu.retarget hn old⟩

/-- What a rebuilt table has of the one it replaces: all columns but one. -/
structure Widens (d₀ d : Definition) (v : String) : Prop where
  new_name : v ∉ d₀.names
  names_subset : ∀ n ∈ d.names, n ∈ v :: d₀.names
  names_kept : ∀ n ∈ d₀.names, n ∈ d.names
  required : ∀ c ∈ d.columns, c.notNull → c.name = v ∨ c ∈ d₀.columns
  keys : ∀ key ∈ d.keys, ∃ key' ∈ d₀.keys, (∀ n ∈ key', n ∈ key) ∧ ∀ n ∈ key', n ∈ d₀.names
  same_column : ∀ c ∈ d₀.columns, ∀ c' ∈ d.columns, c'.name = c.name → c' = c

theorem widens_oneTimePrekeys : Widens oldOneTimePrekeys oneTimePrekeys "user_id" := by
  constructor <;> decide

theorem widens_encryptedEnvelopes :
    Widens oldEncryptedEnvelopes encryptedEnvelopes "sender_user_id" := by
  constructor <;> decide

theorem widens_deliveryState : Widens oldDeliveryState deliveryState "target_user_id" := by
  constructor <;> decide

theorem copyPrekeys_eq : copyPrekeys = .insertSelect "one_time_prekeys" oneTimePrekeys.names
    (.join "one_time_prekeys_old" "device_id" "devices" "device_id")
    (oneTimePrekeys.names.map fun k => if k = "user_id" then .right "user_id" else .left k) := rfl

theorem copyEnvelopes_eq : copyEnvelopes = .insertSelect "encrypted_envelopes"
    encryptedEnvelopes.names
    (.join "encrypted_envelopes_old" "sender_device_id" "devices" "device_id")
    (encryptedEnvelopes.names.map fun k =>
      if k = "sender_user_id" then .right "user_id" else .left k) := rfl

theorem copyDeliveryState_eq : copyDeliveryState = .insertSelect "delivery_state"
    deliveryState.names (.join "delivery_state_old" "target_device_id" "devices" "device_id")
    (deliveryState.names.map fun k =>
      if k = "target_user_id" then .right "user_id" else .left k) := rfl

theorem run_rebuild_owned {d₀ d : Definition} {old c v : String} {rows : List Row}
    (hw : Widens d₀ d v) (hc : c ∈ d₀.names) (hne : n ≠ old) (hn : "devices" ≠ n)
    (hold : "devices" ≠ old) (ht : db.table? n = some t) (ho : db.table? old = none)
    (hoff : db.enforced = false) (hdevices : db.table? "devices" = some ⟨devices, rows⟩)
    (hcolumns : ∀ c, c ∈ t.definition.columns ↔ c ∈ d₀.columns)
    (hkeys : t.definition.keys = d₀.keys) (hs : t.Sound)
    (hunique : rows.Pairwise fun r r' =>
      ["device_id"].map r = ["device_id"].map r' → .null ∈ ["device_id"].map r)
    (huser : ∀ q ∈ rows, q "user_id" ≠ .null)
    (hparent : ∀ r ∈ t.rows, r c ≠ .null ∧ ∃ q ∈ rows, q "device_id" = r c) :
    ∃ rows', t.Carries (fun k r x => k = v ∧ ∃ q ∈ rows, q "device_id" = r c ∧ x = q "user_id")
        ⟨d, rows'⟩ ∧
      db.run (Db.rebuild n old d (.insertSelect n d.names (.join old c "devices" "device_id")
        (d.names.map fun k => if k = v then .right "user_id" else .left k))) =
        .ok (db.rebuilt n old d rows') := by
  have hnames : ∀ k, k ∈ t.names ↔ k ∈ d₀.names := by
    intro k
    simp only [Table.names, Definition.mem_names, hcolumns]
  have hpartner : ∀ r ∈ t.rows, ∃ p, (rows.filter fun r' =>
      r c ≠ .null ∧ r' "device_id" = r c) = [p] := fun r hr =>
    exists_partner hunique (hparent r hr).1 (hparent r hr).2
  obtain ⟨rows', hcarries, hrun⟩ := Db.run_rebuild_join hne ht ho hoff (d := d) (v := v)
    hdevices hn hold ((hnames c).mpr hc) (k := "user_id")
    (show "device_id" ∈ devices.names by decide) (show "user_id" ∈ devices.names by decide)
    (fun h => hw.new_name ((hnames v).mp h))
    (fun k hk => by simpa [hnames] using hw.names_subset k hk)
    (fun k hk => hw.names_kept k ((hnames k).mp hk)) hpartner
  have hsound : Table.Sound ⟨d, rows'⟩ := by
    refine hs.of_carries hcarries ?_ ?_
    · intro c hc hreq r hr
      rcases hw.required c hc hreq with rfl | hmem
      · right
        refine ⟨fun h => hw.new_name ((hnames _).mp h), ?_⟩
        rintro x ⟨-, q, hq, -, rfl⟩
        exact huser q hq
      · left
        have hmem := (hcolumns c).mpr hmem
        exact ⟨Definition.name_mem_names hmem, hs.filled r hr c hmem hreq⟩
    · intro key hkey
      obtain ⟨key', hkey', hsub, hin⟩ := hw.keys key hkey
      exact ⟨key', hkeys ▸ hkey', fun k hk => hsub k hk, fun k hk => (hnames k).mpr (hin k hk)⟩
  refine ⟨rows', hcarries, ?_⟩
  rw [hrun, (Table.insertRows_new d rows').mpr ⟨rfl, hsound⟩]
  rfl

theorem run_rebuild_devices (hl : oldDevices.Matches (mayLack "devices") t.definition)
    (hcopy : ∀ n ∈ devices.names, n ∈ t.names) (hoff : db.enforced = false)
    (ht : db.table? "devices" = some t) (ho : db.table? "devices_old" = none) :
    ∃ rows, t.Carries (fun _ _ _ => False) ⟨devices, rows⟩ ∧
      db.run (Db.rebuild "devices" "devices_old" devices copyDevices) =
        ((⟨devices, []⟩ : Table).insertRows rows).map
          fun t' => db.rebuilt "devices" "devices_old" devices t'.rows := by
  refine Db.run_rebuild_copy (by decide) ht ho hoff (fun n hn => hcopy n hn) ?_ _
  intro n hn
  have hsub : ∀ n ∈ oldDevices.names, n ∈ devices.names := by decide
  exact hsub n (hl.names_subset hn)

theorem sound_devices {rows : List Row} {added : String → Row → Value → Prop}
    (hl : oldDevices.Matches (mayLack "devices") t.definition)
    (hcopy : ∀ n ∈ devices.names, n ∈ t.names) (hs : t.Sound)
    (hcarries : t.Carries added ⟨devices, rows⟩) :
    Table.Sound ⟨devices, rows⟩ ↔ ∀ r ∈ t.rows, r "device_id" ≠ .null := by
  have hid : (Column.text "device_id").required ∈ devices.columns := by decide
  constructor
  · intro hsound r hr
    obtain ⟨r', hr', hkeep⟩ := hcarries.exists_row hr
    rw [← hkeep "device_id" (hcopy _ (by decide))]
    exact hsound.filled r' hr' _ hid rfl
  · intro hnull
    refine hs.of_carries hcarries ?_ ?_
    · intro c hc hreq r hr
      left
      have hmem := hcopy c.name (Definition.name_mem_names hc)
      refine ⟨hmem, ?_⟩
      have hrequired : ∀ c ∈ devices.columns, c.notNull → c.name = "device_id" ∨
          ∀ c' ∈ oldDevices.columns, c'.name = c.name → c'.notNull := by decide
      rcases hrequired c hc hreq with he | hold
      · exact he ▸ hnull r hr
      · obtain ⟨c', hc', he⟩ := Definition.mem_names.mp hmem
        rw [← he]
        exact hs.filled r hr c' hc' (hold c' (hl.columns_subset c' hc') he)
    · intro key hkey
      have hkeys : ∀ key ∈ devices.keys, ["device_id"] ⊆ key := by decide
      refine ⟨["device_id"], ?_, hkeys key hkey, ?_⟩
      · rw [Definition.keys, hl.primaryKey]
        exact List.mem_cons_self
      · intro k hk
        exact hcopy k (by rw [List.mem_singleton.mp hk]; decide)

theorem pairwise_devices {rows : List Row} {added : String → Row → Value → Prop}
    (hl : oldDevices.Matches (mayLack "devices") t.definition)
    (hcopy : ∀ n ∈ devices.names, n ∈ t.names) (hs : t.Sound)
    (hcarries : t.Carries added ⟨devices, rows⟩) : rows.Pairwise fun r r' =>
      ["device_id"].map r = ["device_id"].map r' → .null ∈ ["device_id"].map r := by
  obtain ⟨f, hrows, hf⟩ := hcarries
  have hkey : ["device_id"] ∈ t.definition.keys := by
    rw [Definition.keys, hl.primaryKey]
    exact List.mem_cons_self
  have hsame : ∀ r ∈ t.rows, f r "device_id" = r "device_id" := fun r hr =>
    (hf r hr).1 _ (hcopy _ (by decide))
  rw [show rows = t.rows.map f from hrows, List.pairwise_map]
  refine (hs.distinct _ hkey).imp_of_mem ?_
  intro r r' hr hr' hdistinct
  simpa [hsame r hr, hsame r' hr'] using hdistinct

/-- The rows of the new devices table, as the other tables meet them. -/
structure Copied (db : Db) (rows : List Row) : Prop where
  of_row : ∀ q ∈ rows, ∃ q₀ ∈ db.rows "devices",
    q "user_id" = q₀ "user_id" ∧ q "device_id" = q₀ "device_id"
  exists_row : ∀ q₀ ∈ db.rows "devices", ∃ q ∈ rows,
    q "user_id" = q₀ "user_id" ∧ q "device_id" = q₀ "device_id"
  unique : rows.Pairwise fun r r' =>
    ["device_id"].map r = ["device_id"].map r' → .null ∈ ["device_id"].map r
  user : ∀ q ∈ rows, q "user_id" ≠ .null

theorem copied_devices {rows : List Row} {added : String → Row → Value → Prop}
    (ht : db.table? "devices" = some t)
    (hl : oldDevices.Matches (mayLack "devices") t.definition)
    (hcopy : ∀ n ∈ devices.names, n ∈ t.names) (hs : t.Sound)
    (hcarries : t.Carries added ⟨devices, rows⟩) (hsound : Table.Sound ⟨devices, rows⟩) :
    Copied db rows where
  of_row q hq := by
    obtain ⟨q₀, hq₀, hkeep, -⟩ := hcarries.exists_of_mem hq
    rw [Db.rows_eq ht]
    exact ⟨q₀, hq₀, hkeep _ (hcopy _ (by decide)), hkeep _ (hcopy _ (by decide))⟩
  exists_row q₀ hq₀ := by
    rw [Db.rows_eq ht] at hq₀
    obtain ⟨q, hq, hkeep⟩ := hcarries.exists_row hq₀
    exact ⟨q, hq, hkeep _ (hcopy _ (by decide)), hkeep _ (hcopy _ (by decide))⟩
  unique := pairwise_devices hl hcopy hs hcarries
  user q hq := by
    have hcolumn : (Column.text "user_id").required ∈ devices.columns := by decide
    exact hsound.filled q hq _ hcolumn rfl

theorem reference_columns : ∀ p ∈ oldSchema, ∀ fk ∈ p.2.foreignKeys, ∀ c ∈ fk.columns,
    ∃ col ∈ p.2.columns, col.name = c ∧ col.notNull ∧ c ∉ mayLack p.1 := by
  decide

theorem device_of_row (hl : Legacy db) {p : String × Definition} (hp : p ∈ oldSchema)
    (ht : db.table? p.1 = some t) (hmatches : p.2.Matches (mayLack p.1) t.definition) {c : String}
    (hfk : deviceReference c ∈ p.2.foreignKeys) {r : Row} (hr : r ∈ t.rows) :
    r c ≠ .null ∧ ∃ q ∈ db.rows "devices", q "device_id" = r c := by
  obtain ⟨col, hcol, rfl, hreq, hlack⟩ := reference_columns p hp _ hfk c List.mem_cons_self
  have hnull := (hl.sound _ _ ht).filled r hr col (hmatches.columns_present col hcol hlack) hreq
  refine ⟨hnull, ?_⟩
  have hrefers := Db.foreignKeysHold_iff.mp hl.holds _ t ht (deviceReference col.name)
    (hmatches.foreignKeys ▸ hfk) r hr
  rcases hrefers with hmem | ⟨q, hq, he⟩
  · exact absurd (List.mem_singleton.mp hmem).symm hnull
  · exact ⟨q, hq, by simpa [deviceReference] using he⟩

theorem key_columns : ∀ p ∈ oldSchema, ∀ key ∈ p.2.keys, ∀ n ∈ key, n ∈ p.2.names ∧
    n ∉ mayLack p.1 := by
  decide

theorem lacking_columns : ∀ p ∈ oldSchema, p.1 ∈ rebuiltNames → p.1 ≠ "devices" →
    p.2.names.Nodup ∧ mayLack p.1 ⊆ ["ordering_epoch"] ∧
    (p.1 = "encrypted_envelopes" → Column.integer "ordering_epoch" ∈ p.2.columns) ∧
    (p.1 ≠ "encrypted_envelopes" → mayLack p.1 = []) := by
  decide

theorem prepared_table (hl : Legacy db) (h : Has oldSchema mayLack db) {p : String × Definition}
    (hp : p ∈ oldSchema) (hn : p.1 ∈ rebuiltNames) (hne : p.1 ≠ "devices") :
    ∃ t t', db.table? p.1 = some t ∧ p.2.Matches (mayLack p.1) t.definition ∧
      (prepared db).table? p.1 = some t' ∧ p.2.Matches [] t'.definition ∧ t'.Sound ∧
      t.Carries p.2.AtDefault t' ∧ t.names ⊆ t'.names := by
  obtain ⟨t, ht, hmatches⟩ := h p hp
  have hs := hl.sound _ _ ht
  obtain ⟨hnodup, hlack, hepoch, hnone⟩ := lacking_columns p hp hn hne
  by_cases he : p.1 = "encrypted_envelopes"
  · have hprepared : (prepared db).table? p.1 = some (t.ensure (.integer "ordering_epoch")) := by
      rw [table?_prepared, Db.table?_ensure, if_pos he, ht]
      rfl
    have hkeys : ∀ key ∈ t.definition.keys, key ⊆ t.names := by
      intro key hkey n hn
      rw [Definition.keys, hmatches.primaryKey, hmatches.unique] at hkey
      obtain ⟨hname, hnot⟩ := key_columns p hp key hkey n hn
      exact hmatches.mem_names_of_not_missing hname hnot
    exact ⟨t, _, ht, hmatches, hprepared,
      Table.matches_ensure hnodup (hepoch he) (hmatches.mono hlack),
      hs.ensure (by simp [Column.integer]) hkeys, Table.carries_ensure hnodup (hepoch he),
      Table.names_subset_ensure _ _⟩
  · exact ⟨t, t, ht, hmatches, (table?_prepared_of_ne he).trans ht, hnone he ▸ hmatches, hs,
      Table.carries_refl _ t, List.Subset.refl _⟩

theorem carries_added_of_default {d₀ d : Definition} {t' : Table} {user device : String}
    (hw : Widens d₀ d user) (howner : ownerColumns.lookup n = some (user, device))
    (hmatches : d₀.Matches [] t'.definition) (hcarries : t.Carries d₀.AtDefault t') :
    t.Carries (Added db (n, d)) t' := by
  refine hcarries.mono ?_
  intro c hc _ r v hv
  have hne : c ≠ user := by
    rintro rfl
    exact hw.new_name (hmatches.names_subset hc)
  simp only [Added, howner, if_neg hne]
  intro c' hc' he
  obtain ⟨c'', hc'', he'⟩ := Definition.mem_names.mp (hmatches.names_subset hc)
  rw [hw.same_column c'' hc'' c' hc' (he.trans he'.symm)]
  exact hv c'' hc'' he'

theorem carries_added_of_owner {d : Definition} {t' u : Table} {rows : List Row}
    {user device : String} (hcopied : Copied db rows)
    (howner : ownerColumns.lookup n = some (user, device)) (hdevice : device ∈ t.names)
    (hnames : t.names ⊆ t'.names) (hcarries : t.Carries (Added db (n, d)) t')
    (hcarries' : t'.Carries (fun k r x => k = user ∧ ∃ q ∈ rows, q "device_id" = r device ∧
      x = q "user_id") u) : t.Carries (Added db (n, d)) u := by
  refine hcarries.trans hcarries' hnames ?_
  rintro r r' hkeep c - v ⟨rfl, q, hq, he, rfl⟩
  obtain ⟨q₀, hq₀, huser, hid⟩ := hcopied.of_row q hq
  simp only [Added, howner, if_true]
  exact ⟨q₀, hq₀, by rw [← hid, he, hkeep _ hdevice], huser⟩

section

variable {done : List (String × Table)} {db₁ : Db} (hl : Legacy db) (h : Has oldSchema mayLack db)
  (hstage : Stage (prepared db) done db₁)

include hl h hstage

theorem Stage.owned (n old : String) {rows : List Row} {user device : String}
    {d₀ d : Definition} (hw : Widens d₀ d user) (hp : (n, d₀) ∈ oldSchema)
    (hcopied : Copied db rows) (hdevices : ("devices", ⟨devices, rows⟩) ∈ done)
    (howner : ownerColumns.lookup n = some (user, device))
    (hfk : deviceReference device ∈ d₀.foreignKeys) (hn : n ∈ rebuiltNames) (hne : n ≠ "devices")
    (hold : old ∉ schema.map Prod.fst) (hnot : n ∉ done.map Prod.fst) :
    ∃ rows', (∃ t, db.table? n = some t ∧ t.Carries (Added db (n, d)) ⟨d, rows'⟩) ∧
      db₁.run (Db.rebuild n old d (.insertSelect n d.names (.join old device "devices" "device_id")
        (d.names.map fun k => if k = user then .right "user_id" else .left k))) =
        .ok (db₁.rebuilt n old d rows') := by
  obtain ⟨t, t', ht, hmatches, ht', hmatches', hs, hcarries, hnames⟩ :=
    prepared_table hl h hp hn hne
  obtain ⟨u, hu, hunrebuilt⟩ := hstage.rest n t' hnot ht'
  have hknown : ∀ n ∈ rebuiltNames, n ∈ schema.map Prod.fst := by decide
  have hold₁ : n ≠ old := fun he => hold (he ▸ hknown n hn)
  have hold₂ : "devices" ≠ old := fun he => hold (he ▸ hknown "devices" (by decide))
  obtain ⟨col, hcol, rfl, -, hlack⟩ := reference_columns _ hp _ hfk device List.mem_cons_self
  have hdevice : col.name ∈ t.names := hmatches.mem_names_of_not_missing
    (Definition.name_mem_names hcol) hlack
  have hparent : ∀ r ∈ u.rows, r col.name ≠ .null ∧ ∃ q ∈ rows, q "device_id" = r col.name := by
    intro r hr
    rw [hunrebuilt.rows] at hr
    obtain ⟨r₀, hr₀, hkeep, -⟩ := hcarries.exists_of_mem hr
    obtain ⟨hnull, q₀, hq₀, he⟩ := device_of_row hl hp ht hmatches hfk hr₀
    obtain ⟨q, hq, -, hid⟩ := hcopied.exists_row q₀ hq₀
    rw [hkeep _ hdevice]
    exact ⟨hnull, q, hq, hid.trans he⟩
  obtain ⟨rows', hcarries', hrun⟩ := run_rebuild_owned hw (Definition.name_mem_names hcol)
    hold₁ (Ne.symm hne) hold₂ hu (hstage.known old hold) hstage.off (hstage.rebuilt _ hdevices)
    (fun c => by
      rw [hunrebuilt.columns]
      exact ⟨hmatches'.columns_subset c, fun hc => hmatches'.columns_present c hc List.not_mem_nil⟩)
    (by rw [hunrebuilt.keys, Definition.keys, hmatches'.primaryKey, hmatches'.unique]; rfl)
    (hunrebuilt.sound hs) hcopied.unique hcopied.user hparent
  have hdefault : t.Carries (Added db (n, d)) t' :=
    carries_added_of_default hw howner hmatches' hcarries
  exact ⟨rows', ⟨t, ht, carries_added_of_owner hcopied howner hdevice hnames hdefault
    (hunrebuilt.carries hcarries')⟩, hrun⟩

theorem Stage.sessions (horder : db.names "sessions" = oldSessions.names)
    (hnot : "sessions" ∉ done.map Prod.fst) :
    ∃ rows', (∃ t, db.table? "sessions" = some t ∧
        t.Carries (Added db ("sessions", Migration.sessions)) ⟨Migration.sessions, rows'⟩) ∧
      db₁.run (Db.rebuild "sessions" "sessions_old" Migration.sessions copySessions) =
        .ok (db₁.rebuilt "sessions" "sessions_old" Migration.sessions rows') := by
  obtain ⟨t, ht, hmatches⟩ := h ("sessions", oldSessions) (by simp [oldSchema])
  have hprepared : (prepared db).table? "sessions" = some t :=
    (table?_prepared_of_ne (by decide)).trans ht
  obtain ⟨u, hu, hunrebuilt⟩ := hstage.rest "sessions" t hnot hprepared
  have hs := hunrebuilt.sound (hl.sound _ _ ht)
  have hnames : u.names = Migration.sessions.names := by
    rw [hunrebuilt.names, ← Db.names_eq ht, horder]
    rfl
  obtain ⟨rows', hcarries, hrun⟩ := Db.run_rebuild_all (by decide) hu
    (hstage.known "sessions_old" (by decide)) hstage.off hnames
    (Added db ("sessions", Migration.sessions))
  refine ⟨rows', ⟨t, ht, hunrebuilt.carries hcarries⟩, ?_⟩
  have hsound : Table.Sound ⟨Migration.sessions, rows'⟩ := by
    refine hs.of_carries hcarries ?_ ?_
    · intro c hc hreq r hr
      have hmem : c ∈ u.definition.columns := by
        rw [hunrebuilt.columns]
        exact hmatches.columns_present c hc List.not_mem_nil
      exact .inl ⟨Definition.name_mem_names hmem, hs.filled r hr c hmem hreq⟩
    · intro key hkey
      have hkeys : ∀ key ∈ Migration.sessions.keys, key ⊆ Migration.sessions.names := by decide
      have hsame : u.definition.keys = Migration.sessions.keys := by
        rw [hunrebuilt.keys, Definition.keys, hmatches.primaryKey, hmatches.unique]
        rfl
      exact ⟨key, hsame ▸ hkey, List.Subset.refl _, hnames ▸ hkeys key hkey⟩
  rw [copySessions, hrun, (Table.insertRows_new _ rows').mpr ⟨rfl, hsound⟩]
  rfl

end

theorem Stage.init (hl : Legacy db) :
    Stage (prepared db) [] { prepared db with enforced := false } where
  off := rfl
  indexes := rfl
  known n hn := by
    have hnone : db.table? n = none := by
      by_contra hsome
      obtain ⟨t, ht⟩ := Option.ne_none_iff_exists'.mp hsome
      exact hn (hl.known n t ht)
    change (prepared db).table? n = none
    rw [table?_prepared, Db.table?_ensure, hnone]
    split <;> rfl
  rebuilt p hp := absurd hp List.not_mem_nil
  rest n t _ ht := ⟨t, ht, .refl t⟩

/-- The definitions of the rebuilt tables, the last one first. -/
def rebuiltSchema : List (String × Definition) := [
  ("delivery_state", deliveryState), ("encrypted_envelopes", encryptedEnvelopes),
  ("sessions", sessions), ("one_time_prekeys", oneTimePrekeys), ("devices", devices)]

theorem rebuildTables_eq (hl : Legacy db) (h : Has oldSchema mayLack db)
    (horder : db.names "sessions" = oldSessions.names)
    (hcopy : ∀ n ∈ devices.names, n ∈ db.names "devices")
    (hnull : ∀ r ∈ db.rows "devices", r "device_id" ≠ .null) :
    ∃ db' done, rebuildTables { prepared db with enforced := false } = .ok db' ∧
      Stage (prepared db) done db' ∧
      done.map (fun p => (p.1, p.2.definition)) = rebuiltSchema ∧
      ∀ p ∈ done, ∃ t, db.table? p.1 = some t ∧
        t.Carries (Added db (p.1, p.2.definition)) p.2 := by
  obtain ⟨t, ht, hmatches⟩ := h ("devices", oldDevices) (by simp [oldSchema])
  rw [Db.names_eq ht] at hcopy
  rw [Db.rows_eq ht] at hnull
  have hs := hl.sound _ _ ht
  have hstage := Stage.init hl
  have hprepared : (prepared db).table? "devices" = some t :=
    (table?_prepared_of_ne (by decide)).trans ht
  obtain ⟨rD, hD, hrunD⟩ := run_rebuild_devices hmatches hcopy hstage.off hprepared
    (hstage.known "devices_old" (by decide))
  have hsound := (sound_devices hmatches hcopy hs hD).mpr hnull
  have hcopied := copied_devices ht hmatches hcopy hs hD hsound
  rw [(Table.insertRows_new _ rD).mpr ⟨rfl, hsound⟩] at hrunD
  have hstage := hstage.step "devices" "devices_old" devices (by decide) (by decide) (by simp) rD
  obtain ⟨rO, hO, hrunO⟩ := hstage.owned hl h "one_time_prekeys" "one_time_prekeys_old"
    widens_oneTimePrekeys (by simp [oldSchema]) hcopied (by simp) rfl (by decide) (by decide)
    (by decide) (by decide) (by simp)
  have hstage := hstage.step "one_time_prekeys" "one_time_prekeys_old" oneTimePrekeys (by decide)
    (by decide) (by simp [devices]) rO
  obtain ⟨rS, hS, hrunS⟩ := hstage.sessions hl h horder (by simp)
  have hstage := hstage.step "sessions" "sessions_old" sessions (by decide) (by decide)
    (by simp [devices, oneTimePrekeys]) rS
  obtain ⟨rE, hE, hrunE⟩ := hstage.owned hl h "encrypted_envelopes" "encrypted_envelopes_old"
    widens_encryptedEnvelopes (by simp [oldSchema]) hcopied (by simp) rfl (by decide) (by decide)
    (by decide) (by decide) (by simp)
  have hstage := hstage.step "encrypted_envelopes" "encrypted_envelopes_old" encryptedEnvelopes
    (by decide) (by decide) (by simp [devices, oneTimePrekeys, sessions]) rE
  obtain ⟨rQ, hQ, hrunQ⟩ := hstage.owned hl h "delivery_state" "delivery_state_old"
    widens_deliveryState (by simp [oldSchema]) hcopied (by simp) rfl (by decide) (by decide)
    (by decide) (by decide) (by simp)
  have hstage := hstage.step "delivery_state" "delivery_state_old" deliveryState (by decide)
    (by decide) (by simp [devices, oneTimePrekeys, sessions, encryptedEnvelopes]) rQ
  refine ⟨_, _, ?_, hstage, rfl, ?_⟩
  · rw [← copyPrekeys_eq] at hrunO
    rw [← copyEnvelopes_eq] at hrunE
    rw [← copyDeliveryState_eq] at hrunQ
    simp only [rebuildTables, bind, Except.bind, hrunD, Except.map, hrunO, hrunS, hrunE]
    exact hrunQ
  · simp only [List.forall_mem_cons]
    refine ⟨hQ, hE, hS, hO, ⟨t, ht, hD.mono ?_⟩, by simp⟩
    intro _ _ _ _ _ hf
    exact hf.elim

theorem schema_cases : ∀ p ∈ schema, p ∈ rebuiltSchema ∨ p ∈ oldSchema ∧ p.1 ∉ rebuiltNames ∧
    (∀ fk ∈ p.2.foreignKeys, fk.parent ∉ rebuiltNames) ∧
    Db.columnsFor p.1 addedColumns = Db.columnsFor p.1 laterColumns := by
  decide

theorem exists_table_of_old (h : Has oldSchema mayLack db) :
    ∀ p ∈ schema, ∃ t, db.table? p.1 = some t := by
  have hall : ∀ p ∈ schema, ∃ q ∈ oldSchema, q.1 = p.1 := by decide
  intro p hp
  obtain ⟨q, hq, he⟩ := hall p hp
  obtain ⟨t, ht, -⟩ := h q hq
  exact ⟨t, he ▸ ht⟩

theorem table_of_stage (h : Has oldSchema mayLack db)
    {done : List (String × Table)} (hstage : Stage (prepared db) done db')
    (hdone : done.map (fun p => (p.1, p.2.definition)) = rebuiltSchema)
    (hcarries : ∀ p ∈ done, ∃ t, db.table? p.1 = some t ∧
      t.Carries (Added db (p.1, p.2.definition)) p.2)
    {p : String × Definition} (hp : p ∈ schema) :
    ∃ t t', db.table? p.1 = some t ∧ (db'.ensureAll addedColumns).table? p.1 = some t' ∧
      p.2.Matches [] t'.definition ∧ t.Carries (Added db p) t' := by
  obtain ⟨hnodup, hcolumns⟩ := schema_columns p hp
  rcases schema_cases p hp with hmem | ⟨hold, hnot, hfk, hsame⟩
  · rw [← hdone] at hmem
    obtain ⟨q, hq, rfl⟩ := List.mem_map.mp hmem
    obtain ⟨t, ht, hc⟩ := hcarries q hq
    have hall : q.2.ensureAll (Db.columnsFor q.1 addedColumns) = q.2 := by
      apply Table.ensureAll_eq_self
      intro c hc
      have hsub : ∀ c ∈ Db.columnsFor q.1 addedColumns, c ∈ Db.columnsFor q.1 laterColumns := by
        intro c hc
        obtain ⟨a, ha, rfl⟩ := List.mem_map.mp hc
        obtain ⟨ha, hq⟩ := List.mem_filter.mp ha
        exact List.mem_map_of_mem (List.mem_filter.mpr ⟨List.mem_cons_of_mem _ ha, hq⟩)
      exact Definition.name_mem_names (hcolumns c (hsub c hc))
    refine ⟨t, q.2, ht, ?_, Definition.matches_refl hnodup, hc⟩
    rw [Db.table?_ensureAll, hstage.rebuilt q hq, Option.map_some, hall]
  · obtain ⟨t, ht, hmatches⟩ := h p hold
    have hnames : done.map Prod.fst = rebuiltSchema.map Prod.fst := by
      rw [← hdone, List.map_map]
      rfl
    have hnot' : p.1 ∉ done.map Prod.fst := by
      have hsub : ∀ n ∈ rebuiltSchema.map Prod.fst, n ∈ rebuiltNames := by decide
      rw [hnames]
      exact fun hmem => hnot (hsub _ hmem)
    have hprepared : (prepared db).table? p.1 = some t := by
      rw [table?_prepared_of_ne, ht]
      intro he
      exact hnot (he ▸ by decide)
    obtain ⟨t', ht', hu⟩ := hstage.rest p.1 t hnot' hprepared
    obtain rfl := hu.eq_self (hmatches.foreignKeys ▸ hfk)
    refine ⟨t', _, ht, ?_, ?_, carries_later hp hmatches⟩
    · rw [Db.table?_ensureAll, ht', hsame]
      rfl
    · exact Table.matches_ensureAll hnodup hcolumns hmatches

theorem migrateDevices_prepared (h : Has oldSchema mayLack db) :
    migrateDevicesCompositePrimaryKey (prepared db) =
      (rebuildTables { prepared db with enforced := false }).bind
        fun db' => .ok { db' with enforced := true } := by
  obtain ⟨t, ht, hmatches⟩ := h ("devices", oldDevices) (by simp [oldSchema])
  have hprepared : (prepared db).table? "devices" = some t :=
    (table?_prepared_of_ne (by decide)).trans ht
  have hkey : t.definition.primaryKey = ["device_id"] := hmatches.primaryKey
  have hshort : ¬ t.definition.primaryKey.length ≥ 2 := by simp [hkey]
  simp only [migrateDevicesCompositePrimaryKey, hprepared, if_neg hshort]
  rfl

/-- If every device can be copied, the migration ends in the current schema with all rows. -/
theorem createSchema_of_copyable (hl : Legacy db) (h : Has oldSchema mayLack db)
    (horder : db.names "sessions" = oldSessions.names)
    (hcopy : ∀ n ∈ devices.names, n ∈ db.names "devices")
    (hnull : ∀ r ∈ db.rows "devices", r "device_id" ≠ .null) :
    ∃ db', createSchema db = .ok db' ∧ Current db' ∧ Lossless db db' ∧ db'.enforced = true := by
  obtain ⟨db₁, done, hrun, hstage, hdone, hcarries⟩ := rebuildTables_eq hl h horder hcopy hnull
  have hmigrate : migrateDevicesCompositePrimaryKey (prepared db) =
      .ok { db₁ with enforced := true } := by
    rw [migrateDevices_prepared h, hrun]
    rfl
  have htables : ∀ p ∈ schema, ∃ t t', db.table? p.1 = some t ∧
      (Db.ensureAll { db₁ with enforced := true } addedColumns).table? p.1 = some t' ∧
      p.2.Matches [] t'.definition ∧ t.Carries (Added db p) t' := by
    intro p hp
    obtain ⟨t, t', ht, ht', hm, hc⟩ := table_of_stage h hstage hdone hcarries hp
    refine ⟨t, t', ht, ?_, hm, hc⟩
    rw [Db.table?_ensureAll] at ht' ⊢
    exact ht'
  refine ⟨Db.ensureAll { db₁ with enforced := true } addedColumns, ?_, ?_, ?_, ?_⟩
  · rw [createSchema_eq (exists_table_of_old h) hl.indexes]
    apply migrateLegacySchema_eq hmigrate
    intro p hp
    obtain ⟨t, t', -, ht', -⟩ := htables p hp
    rw [Db.table?_ensureAll, Option.map_eq_some_iff] at ht'
    obtain ⟨u, hu, -⟩ := ht'
    exact ⟨u, hu⟩
  · refine ⟨?_, ?_, ?_⟩
    · intro p hp
      obtain ⟨-, t', -, ht', hm, -⟩ := htables p hp
      exact ⟨t', ht', hm⟩
    · intro n t ht
      by_contra hn
      rw [Db.table?_ensureAll] at ht
      have hnone : Db.table? { db₁ with enforced := true } n = none := hstage.known n hn
      rw [hnone] at ht
      cases ht
    · rw [Db.indexes_ensureAll]
      exact hstage.indexes
  · intro p hp
    obtain ⟨t, t', ht, ht', -, hc⟩ := htables p hp
    exact ⟨t, t', ht, ht', hc⟩
  · exact Db.enforced_ensureAll

/-- The migration throws unless every device can be copied. -/
theorem copyable_of_createSchema (hl : Legacy db) (h : Has oldSchema mayLack db)
    (hok : createSchema db = .ok db') :
    (∀ n ∈ devices.names, n ∈ db.names "devices") ∧
      ∀ r ∈ db.rows "devices", r "device_id" ≠ .null := by
  obtain ⟨t, ht, hmatches⟩ := h ("devices", oldDevices) (by simp [oldSchema])
  have hprepared : Db.table? { prepared db with enforced := false } "devices" = some t :=
    (table?_prepared_of_ne (by decide)).trans ht
  have hstage := Stage.init hl
  have hnone := hstage.known "devices_old" (by decide)
  -- The first statements of the transaction have ended.
  obtain ⟨db₁, hrun⟩ : ∃ db₁, Db.run { prepared db with enforced := false }
      (Db.rebuild "devices" "devices_old" devices copyDevices) = .ok db₁ := by
    rw [createSchema_eq (exists_table_of_old h) hl.indexes, migrateLegacySchema,
      migrateDevices_prepared h, rebuildTables] at hok
    cases hrun : Db.run { prepared db with enforced := false }
        (Db.rebuild "devices" "devices_old" devices copyDevices) with
    | error e => rw [hrun] at hok; cases hok
    | ok db₁ => exact ⟨db₁, rfl⟩
  rw [Db.names_eq ht, Db.rows_eq ht]
  have hcopy : ∀ n ∈ devices.names, n ∈ t.names := by
    intro n hn
    by_contra hmissing
    obtain ⟨e, he⟩ := Db.run_rebuild_missing (d := devices)
      (show "devices" ≠ "devices_old" by decide) hprepared hnone hn hmissing
    exact absurd (hrun.symm.trans he) (by simp)
  refine ⟨hcopy, ?_⟩
  obtain ⟨rows, hcarries, he⟩ := run_rebuild_devices hmatches hcopy hstage.off hprepared hnone
  rw [he] at hrun
  cases hi : (⟨devices, []⟩ : Table).insertRows rows with
  | error e => rw [hi] at hrun; cases hrun
  | ok t' =>
    obtain ⟨-, hsound⟩ := (Table.insertRows_new devices rows).mp hi
    exact (sound_devices hmatches hcopy (hl.sound _ _ ht) hcarries).mp hsound

end VoxServer.Migration
