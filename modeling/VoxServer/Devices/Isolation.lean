import VoxServer.Server.Wiring

/-! # Prekeys of different devices

Seen from one device, the repository is a shelf: the account, the device with its keys, and
the one-time prekeys that were put there and not taken yet. Calls that are addressed to
other devices do not touch the shelf, and calls to the device behave as on the shelf alone,
as long as no id that the device puts there is in use for another device: ids of prekeys
are unique in the whole table.
-/

namespace VoxServer.Prekeys

open Table Interleaving DeviceRepository

structure Profile where
  identityKeyPublic : String
  signedPrekeyPublic : String
  signedPrekeySignature : String
  revoked : Bool
  deriving DecidableEq, Repr

structure OneTime where
  prekeyId : String
  prekeyPublic : String
  consumed : Bool
  deriving DecidableEq, Repr

/-- What the repository keeps for one device. -/
structure Shelf where
  account : Bool
  device : Option Profile
  prekeys : List OneTime
  deriving DecidableEq, Repr

namespace Shelf

def register (p : Profile) (s : Shelf) : VoidResult × Shelf :=
  if s.device = none ∧ s.account then (.ok (), { s with device := some p })
  else (.error ⟨.alreadyExists, "Device already registered"⟩, s)

def put : List PrekeyRecord → Shelf → Except SqliteError Shelf
  | [], s => .ok s
  | pk :: pks, s =>
    if ∃ p ∈ s.prekeys, p.prekeyId = pk.prekeyId then
      .error (.unique "one_time_prekeys.prekey_id")
    else if s.device = none then .error .foreignKey
    else put pks { s with prekeys := s.prekeys ++ [⟨pk.prekeyId, pk.prekeyPublic, false⟩] }

def store (pks : List PrekeyRecord) (s : Shelf) : VoidResult × Shelf :=
  match s.put pks with
  | .ok s' => (.ok (), s')
  | .error e => (.error e.toInternal, s)

def without (id : String) (s : Shelf) : Shelf :=
  { s with
    prekeys := updateWhere (fun p => p.prekeyId = id ∧ p.consumed = false)
      (fun p => { p with consumed := true }) s.prekeys }

def bundle (s : Shelf) : Result PrekeyBundle × Shelf :=
  match s.device with
  | none => (.error ⟨.notFound, "Device not found"⟩, s)
  | some p =>
    if p.revoked then (.error ⟨.forbidden, "Device revoked"⟩, s) else
    let otp := s.prekeys.find? (·.consumed = false)
    (.ok { identityKeyPublic := p.identityKeyPublic
           signedPrekeyPublic := p.signedPrekeyPublic
           signedPrekeySignature := p.signedPrekeySignature
           oneTimePrekeyId := otp.map (·.prekeyId)
           oneTimePrekeyPublic := otp.map (·.prekeyPublic) },
      otp.elim s fun o => s.without o.prekeyId)

def revoke (s : Shelf) : VoidResult × Shelf :=
  match s.device with
  | none => (.error ⟨.notFound, "Device not found"⟩, s)
  | some p =>
    if p.revoked then (.error ⟨.notFound, "Device not found"⟩, s) else
    (.ok (), { s with device := some { p with revoked := true }, prekeys := [] })

end Shelf

inductive Answer
  | done (r : VoidResult)
  | bundle (r : Result PrekeyBundle)
  deriving DecidableEq, Repr

def profileOf (d : DeviceRecord) : Profile :=
  ⟨d.identityKeyPublic, d.signedPrekeyPublic, d.signedPrekeySignature, d.revokedAt.isSome⟩

/-- The device that a registration, a storing of prekeys, a bundle or a revocation is for. -/
def addressee : DeviceCall → Option (UserId × DeviceId)
  | .registerDevice d => some d.key
  | .storePrekeys u d _ => some (u, d)
  | .getPrekeyBundle u d => some (u, d)
  | .revokeDevice u d _ => some (u, d)
  | _ => none

def answer? : (c : DeviceCall) → c.Reply → Option Answer
  | .registerDevice _, r => some (.done r)
  | .storePrekeys .., r => some (.done r)
  | .getPrekeyBundle .., r => some (.bundle r)
  | .revokeDevice .., r => some (.done r)
  | _, _ => none

namespace Shelf

/-- A call on the shelf alone. -/
def play : DeviceCall → Shelf → Option Answer × Shelf
  | .registerDevice d, s => ((s.register (profileOf d)).map (some ∘ .done) id)
  | .storePrekeys _ _ pks, s => ((s.store pks).map (some ∘ .done) id)
  | .getPrekeyBundle .., s => (s.bundle.map (some ∘ .bundle) id)
  | .revokeDevice .., s => (s.revoke.map (some ∘ .done) id)
  | _, s => (none, s)

/-- The answers to a sequence of calls on the shelf alone, and the shelf after them. -/
def playAll (s : Shelf) (cs : List DeviceCall) : List Answer × Shelf :=
  cs.foldl (fun p c => (p.1 ++ (play c p.2).1.toList, (play c p.2).2)) ([], s)

theorem playAll_snoc (s : Shelf) (cs : List DeviceCall) (c : DeviceCall) :
    s.playAll (cs ++ [c]) = ((s.playAll cs).1 ++ (play c (s.playAll cs).2).1.toList,
      (play c (s.playAll cs).2).2) := by
  simp [playAll]

end Shelf

section Device

variable (k : UserId × DeviceId)

def ofDevice (p : PrekeyRow) : Bool := (p.userId, p.deviceId) = k

/-- The shelf of the device in the database. -/
def shelfOf (db : Database) : Shelf where
  account := db.users.any (·.userId = k.1)
  device := (db.devices.find? (·.key = k)).map profileOf
  prekeys := (db.oneTimePrekeys.filter (ofDevice k)).map fun p =>
    ⟨p.prekeyId, p.prekeyPublic, p.consumedAt.isSome⟩

def callTo (ev : Ev) : Option DeviceCall :=
  match ev.call with
  | .devices c => if addressee c = some k then some c else none
  | _ => none

/-- The calls of a run that are addressed to the device. -/
def callsTo (tr : List Ev) : List DeviceCall := tr.filterMap (callTo k)

def answersTo (tr : List Ev) : List Answer := tr.filterMap fun ev =>
  (callTo k ev).bind fun c => answer? c (c.exec ev.pre.clock ev.pre.db).1

def storedFor : Call → List PrekeyRecord
  | .devices (.storePrekeys u d pks) => if (u, d) = k then pks else []
  | _ => []

/-- Prekeys are stored for the device only under ids that no other device has in the table. -/
def Unshared (ev : Ev) : Prop :=
  ∀ pk ∈ storedFor k ev.call, ∀ row ∈ ev.pre.db.oneTimePrekeys,
    row.prekeyId = pk.prekeyId → ofDevice k row

instance (ev : Ev) : Decidable (Unshared k ev) :=
  inferInstanceAs (Decidable (∀ pk ∈ storedFor k ev.call, _))

end Device

section Calls

variable {u : UserId} {d : DeviceId} {now : Timestamp} {db : Database}

theorem device_shelfOf {k : UserId × DeviceId} :
    (shelfOf k db).device = none ↔ ∀ r ∈ db.devices, r.key ≠ k := by
  simp [shelfOf]

theorem account_shelfOf {k : UserId × DeviceId} :
    (shelfOf k db).account ↔ ∃ r ∈ db.users, r.userId = k.1 := by
  simp [shelfOf]

theorem shelfOf_registerDevice (dev : DeviceRecord) :
    (registerDevice dev db).1 = ((shelfOf dev.key db).register (profileOf dev)).1 ∧
      shelfOf dev.key (registerDevice dev db).2 =
        ((shelfOf dev.key db).register (profileOf dev)).2 := by
  unfold Shelf.register
  rcases registerDevice_cases dev db with ⟨hno, he⟩ | ⟨hnew, hu, he⟩
  · rw [he, if_neg]
    · exact ⟨rfl, rfl⟩
    · rw [device_shelfOf, account_shelfOf]
      rintro ⟨hnew, hu⟩
      rcases hno with ⟨r, hr, hk⟩ | hno
      · exact hnew r hr hk
      · exact hno hu
  · rw [he, if_pos ⟨device_shelfOf.mpr hnew, account_shelfOf.mpr hu⟩]
    refine ⟨rfl, ?_⟩
    have hnone : db.devices.find? (·.key = dev.key) = none :=
      List.find?_eq_none.mpr fun r hr he => hnew r hr (of_decide_eq_true he)
    simp [shelfOf, List.find?_append, hnone]

theorem shelfOf_touch {k : UserId × DeviceId} {p : DeviceRecord → Bool}
    {f : DeviceRecord → DeviceRecord}
    (hf : ∀ r, (f r).key = r.key ∧ (p r → r.key = k → profileOf (f r) = profileOf r)) :
    shelfOf k { db with devices := updateWhere p f db.devices } = shelfOf k db := by
  have hfind : ((updateWhere p f db.devices).find? (·.key = k)).map profileOf =
      (db.devices.find? (·.key = k)).map profileOf := by
    rw [find?_updateWhere fun r => by rw [(hf r).1], Option.map_map]
    refine Option.map_congr fun r hr => ?_
    have hk : r.key = k := of_decide_eq_true (List.find?_some (Option.mem_def.mp hr) :)
    simp only [Function.comp_apply]
    split
    · rename_i hp
      exact (hf r).2 hp hk
    · rfl
  simp only [shelfOf, hfind]

theorem shelfOf_insertPrekeys {pks : List PrekeyRecord}
    (h : ∀ pk ∈ pks, ∀ row ∈ db.oneTimePrekeys, row.prekeyId = pk.prekeyId →
      ofDevice (u, d) row) :
    (shelfOf (u, d) db).put pks = (insertPrekeys u d pks db).map (shelfOf (u, d)) := by
  induction pks generalizing db with
  | nil => rfl
  | cons pk pks ih =>
    have hid : (∃ p ∈ (shelfOf (u, d) db).prekeys, p.prekeyId = pk.prekeyId) ↔
        ∃ row ∈ db.oneTimePrekeys, row.prekeyId = pk.prekeyId := by
      simp only [shelfOf, List.mem_map, List.mem_filter]
      constructor
      · rintro ⟨_, ⟨row, ⟨hrow, -⟩, rfl⟩, he⟩
        exact ⟨row, hrow, he⟩
      · rintro ⟨row, hrow, he⟩
        exact ⟨_, ⟨row, ⟨hrow, h pk List.mem_cons_self row hrow he⟩, rfl⟩, he⟩
    have hdev : (shelfOf (u, d) db).device = none ↔ ¬ ∃ r ∈ db.devices, r.key = (u, d) := by
      rw [device_shelfOf]
      simp
    unfold insertPrekeys insertPrekey checkUnique checkReference Shelf.put
    by_cases hrow : ∃ row ∈ db.oneTimePrekeys, row.prekeyId = pk.prekeyId
    · rw [if_pos (hid.mpr hrow), if_pos hrow]
      rfl
    · rw [if_neg (mt hid.mp hrow), if_neg hrow]
      by_cases hreg : ∃ r ∈ db.devices, r.key = (u, d)
      · rw [if_neg (mt hdev.mp (not_not.mpr hreg)), if_pos hreg]
        refine Eq.trans ?_ (ih ?_)
        · simp [shelfOf, ofDevice, List.filter_append]
        · intro pk' hpk' row hrow' he
          rcases List.mem_append.mp hrow' with hrow' | hrow'
          · exact h pk' (List.mem_cons_of_mem _ hpk') row hrow' he
          · rw [List.mem_singleton.mp hrow']
            exact decide_eq_true rfl
      · rw [if_pos (hdev.mpr hreg), if_neg hreg]
        rfl

theorem shelfOf_storePrekeys {pks : List PrekeyRecord}
    (h : ∀ pk ∈ pks, ∀ row ∈ db.oneTimePrekeys, row.prekeyId = pk.prekeyId →
      ofDevice (u, d) row) :
    (storePrekeys u d pks now db).1 = ((shelfOf (u, d) db).store pks).1 ∧
      shelfOf (u, d) (storePrekeys u d pks now db).2 = ((shelfOf (u, d) db).store pks).2 := by
  unfold storePrekeys Shelf.store
  rw [shelfOf_insertPrekeys h]
  cases insertPrekeys u d pks db with
  | error e => exact ⟨rfl, rfl⟩
  | ok db' => exact ⟨rfl, shelfOf_touch fun r => ⟨rfl, fun _ _ => rfl⟩⟩

theorem find_shelfOf : (shelfOf (u, d) db).prekeys.find? (·.consumed = false) =
    (db.oneTimePrekeys.find? (available u d)).map fun p => ⟨p.prekeyId, p.prekeyPublic, false⟩ := by
  have hfind : (db.oneTimePrekeys.filter (ofDevice (u, d))).find? (·.consumedAt.isSome = false) =
      db.oneTimePrekeys.find? (available u d) := by
    rw [List.find?_filter]
    congr 1
    funext p
    rw [Bool.eq_iff_iff, available_iff]
    simp [ofDevice, and_assoc]
  simp only [shelfOf, List.find?_map, Function.comp_def, hfind]
  refine Option.map_congr fun p hp => ?_
  obtain ⟨-, -, hfree⟩ := available_iff.mp (List.find?_some (Option.mem_def.mp hp) :)
  rw [hfree]
  rfl

theorem shelfOf_markConsumed (row : PrekeyRow) :
    shelfOf (u, d) (markConsumed row now db) = (shelfOf (u, d) db).without row.prekeyId := by
  have hown : (updateWhere _ _ db.oneTimePrekeys).filter (ofDevice (u, d)) = _ := filter_updateWhere
    (p := fun r => decide (r.prekeyId = row.prekeyId ∧ r.consumedAt = none))
    (f := fun r => { r with consumedAt := some now }) fun _ => rfl
  simp only [shelfOf, Shelf.without, markConsumed, hown]
  simp only [Shelf.mk.injEq, true_and, updateWhere, List.map_map]
  refine List.map_congr_left fun p _ => ?_
  simp only [Function.comp_apply, decide_eq_true_eq]
  by_cases hp : p.prekeyId = row.prekeyId ∧ p.consumedAt = none
  · simp [hp]
  · have hp' : ¬ (p.prekeyId = row.prekeyId ∧ p.consumedAt.isSome = false) := by simpa using hp
    rw [if_neg hp, if_neg hp']

theorem shelfOf_getPrekeyBundle :
    (getPrekeyBundle u d now db).1 = (shelfOf (u, d) db).bundle.1 ∧
      shelfOf (u, d) (getPrekeyBundle u d now db).2 = (shelfOf (u, d) db).bundle.2 := by
  unfold getPrekeyBundle findByUserAndDevice Shelf.bundle
  cases hdev : db.devices.find? (·.key = (u, d)) with
  | none =>
    have hnone : (shelfOf (u, d) db).device = none := by rw [shelfOf, hdev]; rfl
    rw [hnone]
    exact ⟨rfl, rfl⟩
  | some dev =>
    have hsome : (shelfOf (u, d) db).device = some (profileOf dev) := by rw [shelfOf, hdev]; rfl
    rw [hsome]
    by_cases hr : dev.revokedAt.isSome
    · simp only [profileOf, hr, if_true]
      exact ⟨trivial, trivial⟩
    · simp only [profileOf, hr, find_shelfOf, consumeOneAvailableOtpLocked_eq]
      cases db.oneTimePrekeys.find? (available u d) with
      | none => exact ⟨rfl, rfl⟩
      | some row => exact ⟨rfl, shelfOf_markConsumed row⟩

theorem shelfOf_revokeDevice (hv : db.Valid) :
    (revokeDevice u d now db).1 = (shelfOf (u, d) db).revoke.1 ∧
      shelfOf (u, d) (revokeDevice u d now db).2 = (shelfOf (u, d) db).revoke.2 := by
  unfold Shelf.revoke
  rcases revokeDevice_cases u d now db with ⟨⟨r, hr, hk, ha⟩, he⟩ | ⟨hna, he⟩
  · have hdev : db.devices.find? (·.key = (u, d)) = some r := by
      refine hv.devices_pk.find?_eq_some hr (decide_eq_true hk) fun r' _ h => ?_
      exact (of_decide_eq_true h).trans hk.symm
    have hsome : (shelfOf (u, d) db).device = some (profileOf r) := by rw [shelfOf, hdev]; rfl
    have hrev : (profileOf r).revoked = false := by rw [profileOf, ha]; rfl
    rw [he, hsome]
    refine ⟨by simp [hrev], ?_⟩
    have hfind : (updateWhere _ _ db.devices).find? (·.key = (u, d)) = _ := find?_updateWhere
      (p := fun r => r.key = (u, d) ∧ r.revokedAt = none)
      (f := fun r => { r with revokedAt := some now }) fun _ => rfl
    have hnil : (deleteWhere (fun r => r.userId = u ∧ r.deviceId = d) db.oneTimePrekeys).filter
        (ofDevice (u, d)) = [] := by
      rw [List.filter_eq_nil_iff]
      intro p hp hown
      exact (mem_deleteWhere.mp hp).2 (decide_eq_true (Prod.mk.inj (of_decide_eq_true hown)))
    have hp : decide (r.key = (u, d) ∧ r.revokedAt = none) = true := decide_eq_true ⟨hk, ha⟩
    simp only [shelfOf, markRevoked, hfind, hdev, hnil, hrev, Option.map_some, if_pos hp]
    rfl
  · rw [he]
    cases hdev : db.devices.find? (·.key = (u, d)) with
    | none =>
      have hnone : (shelfOf (u, d) db).device = none := by rw [shelfOf, hdev]; rfl
      rw [hnone]
      exact ⟨rfl, rfl⟩
    | some r =>
      have hsome : (shelfOf (u, d) db).device = some (profileOf r) := by rw [shelfOf, hdev]; rfl
      have hk : r.key = (u, d) := of_decide_eq_true (List.find?_some hdev :)
      have hrev : (profileOf r).revoked = true := by
        rw [profileOf, Option.isSome_iff_ne_none]
        exact fun ha => hna ⟨r, List.mem_of_find?_eq_some hdev, hk, ha⟩
      rw [hsome]
      simp [hrev]

end Calls

section Others

variable {k : UserId × DeviceId} {u : UserId} {d : DeviceId} {now : Timestamp} {db : Database}

theorem shelfOf_register_other {dev : DeviceRecord} (hk : dev.key ≠ k) :
    shelfOf k (registerDevice dev db).2 = shelfOf k db := by
  rcases registerDevice_cases dev db with ⟨-, he⟩ | ⟨-, -, he⟩
  · rw [he]
  · rw [he]
    simp [shelfOf, List.find?_append, hk]

theorem ofDevice_of_available {p : PrekeyRow} (h : available u d p) : ofDevice (u, d) p := by
  obtain ⟨hu, hd, -⟩ := available_iff.mp h
  exact decide_eq_true (Prod.ext hu hd)

theorem not_ofDevice {p : PrekeyRow} (hk : (u, d) ≠ k) (h : ofDevice (u, d) p) :
    ¬ ofDevice k p := by
  intro hp
  exact hk ((of_decide_eq_true h).symm.trans (of_decide_eq_true hp))

theorem shelfOf_store_other {pks : List PrekeyRecord} (hk : (u, d) ≠ k) :
    shelfOf k (storePrekeys u d pks now db).2 = shelfOf k db := by
  unfold storePrekeys
  cases hins : insertPrekeys u d pks db with
  | error e => rfl
  | ok db' =>
    obtain ⟨rows, rfl, hrows, -⟩ := insertPrekeys_ok hins
    refine (shelfOf_touch (p := (·.key = (u, d)))
      (f := fun r => { r with lastPrekeyRefreshAt := some now })
      fun r => ⟨rfl, fun _ _ => rfl⟩).trans ?_
    have hnil : rows.filter (ofDevice k) = [] :=
      List.filter_eq_nil_iff.mpr fun p hp => not_ofDevice hk (ofDevice_of_available (hrows p hp))
    simp only [shelfOf, List.filter_append, hnil, List.append_nil]

theorem shelfOf_consume_other {row : PrekeyRow} (hv : db.Valid) (hk : (u, d) ≠ k)
    (hrow : row ∈ db.oneTimePrekeys) (ha : available u d row) :
    shelfOf k (markConsumed row now db) = shelfOf k db := by
  have hnot : ¬ ofDevice k row := not_ofDevice hk (ofDevice_of_available ha)
  have hsame : (updateWhere _ _ db.oneTimePrekeys).filter (ofDevice k) = _ :=
    filter_updateWhere_of_not
    (p := fun r => decide (r.prekeyId = row.prekeyId ∧ r.consumedAt = none))
    (f := fun r => { r with consumedAt := some now }) ?_
  · simp only [shelfOf, markConsumed, hsame]
  · intro p hp hid
    obtain rfl := hv.prekeys_pk.eq_of_mem hp hrow (of_decide_eq_true hid).1
    exact ⟨hnot, hnot⟩

theorem shelfOf_bundle_other (hv : db.Valid) (hk : (u, d) ≠ k) :
    shelfOf k (getPrekeyBundle u d now db).2 = shelfOf k db := by
  unfold getPrekeyBundle
  split
  · rfl
  split
  · rfl
  rcases consumeOneAvailableOtpLocked_cases u d now db with ⟨-, he⟩ | ⟨row, hrow, ha, he⟩
  · rw [he]
  · rw [he]
    exact shelfOf_consume_other hv hk hrow ha

theorem shelfOf_revoke_other (hk : (u, d) ≠ k) :
    shelfOf k (revokeDevice u d now db).2 = shelfOf k db := by
  rcases revokeDevice_cases u d now db with ⟨-, he⟩ | ⟨-, he⟩
  · rw [he]
    refine Eq.trans ?_ (shelfOf_touch (p := fun r => decide (r.key = (u, d) ∧ r.revokedAt = none))
      (f := fun r => { r with revokedAt := some now }) fun r => ⟨rfl, fun hr hk' => ?_⟩)
    · simp only [shelfOf, markRevoked, deleteWhere, List.filter_filter]
      simp only [Shelf.mk.injEq, true_and]
      refine congrArg (List.map _) (List.filter_congr fun p _ => ?_)
      by_cases hp : ofDevice k p
      · have hne : ¬ (p.userId = u ∧ p.deviceId = d) := by
          rintro ⟨rfl, rfl⟩
          exact hk (of_decide_eq_true hp)
        simp [hp, hne]
      · simp [hp]
    · exact absurd ((of_decide_eq_true hr).1.symm.trans hk') hk
  · rw [he]

end Others

section Runs

variable {k : UserId × DeviceId} {clock : Timestamp} {db : Database}

theorem exec_eq_play (clock : Timestamp) {c : DeviceCall} (hv : db.Valid)
    (hc : addressee c = some k)
    (h : ∀ pks, c = .storePrekeys k.1 k.2 pks → ∀ pk ∈ pks, ∀ row ∈ db.oneTimePrekeys,
      row.prekeyId = pk.prekeyId → ofDevice k row) :
    answer? c (c.exec clock db).1 = (Shelf.play c (shelfOf k db)).1 ∧
      shelfOf k (c.exec clock db).2 = (Shelf.play c (shelfOf k db)).2 := by
  cases c with
  | registerDevice dev =>
    obtain rfl := Option.some.inj hc
    exact (shelfOf_registerDevice dev).imp (fun hr => congrArg (some ∘ Answer.done) hr) id
  | storePrekeys u d pks =>
    obtain rfl := Option.some.inj hc
    exact (shelfOf_storePrekeys (h pks rfl)).imp (fun hr => congrArg (some ∘ Answer.done) hr) id
  | getPrekeyBundle u d =>
    obtain rfl := Option.some.inj hc
    exact shelfOf_getPrekeyBundle.imp (fun hr => congrArg (some ∘ Answer.bundle) hr) id
  | revokeDevice u d now =>
    obtain rfl := Option.some.inj hc
    exact (shelfOf_revokeDevice hv).imp (fun hr => congrArg (some ∘ Answer.done) hr) id
  | _ => cases hc

theorem exec_other {c : DeviceCall} (hv : db.Valid) (hc : (addressee c).isSome)
    (hk : addressee c ≠ some k) : shelfOf k (c.exec clock db).2 = shelfOf k db := by
  have hne : ∀ {k' : UserId × DeviceId}, addressee c = some k' → k' ≠ k := by
    rintro k' he rfl
    exact hk he
  cases c with
  | registerDevice dev => exact shelfOf_register_other (hne rfl)
  | storePrekeys u d pks => exact shelfOf_store_other (hne rfl)
  | getPrekeyBundle u d => exact shelfOf_bundle_other hv (hne rfl)
  | revokeDevice u d now => exact shelfOf_revoke_other (hne rfl)
  | _ => cases hc

def prekeyOp : Op → Bool
  | .single (.devices c) => (addressee c).isSome
  | _ => false

theorem prekeyCall_of_mem_trace {cfg : ServerConfig} {init : Server} {acts : List Act}
    (hops : ∀ o, .spawn o ∈ acts → prekeyOp o) {ev : Ev} (hev : ev ∈ (serve cfg init acts).trace) :
    ∃ c, ev.call = .devices c ∧ (addressee c).isSome := by
  obtain ⟨t, ht, hmay⟩ := Op.mayCall_of_mem_trace cfg hev
  have hop := hops _ ((voxServer cfg).op_spawned (List.mem_of_getElem? ht))
  unfold prekeyOp at hop
  split at hop
  · rename_i c ho
    rw [ho] at hmay
    exact ⟨c, of_decide_eq_true hmay, hop⟩
  · cases hop

theorem run_eq_playAll (cfg : ServerConfig) {init : Server} (hv : init.db.Valid) {acts : List Act}
    (hops : ∀ o, .spawn o ∈ acts → prekeyOp o)
    (hun : ∀ ev ∈ (serve cfg init acts).trace, Unshared k ev) :
    (shelfOf k init.db).playAll (callsTo k (serve cfg init acts).trace) =
      (answersTo k (serve cfg init acts).trace, shelfOf k (serve cfg init acts).state.db) := by
  have hall : ∀ ev ∈ (serve cfg init acts).trace,
      (∃ c, ev.call = .devices c ∧ (addressee c).isSome) ∧ Unshared k ev :=
    fun ev hev => ⟨prekeyCall_of_mem_trace hops hev, hun ev hev⟩
  refine ((voxServer cfg).always_invariant (always_of_mem hall) (I := fun tr s => s.db.Valid ∧
    (shelfOf k init.db).playAll (callsTo k tr) = (answersTo k tr, shelfOf k s.db))
    ⟨hv, rfl⟩ ?_ (fun _ _ _ h => h)).1.2
  rintro tr s i _ ⟨⟨c, rfl, hc⟩, hun⟩ ⟨hvs, hplay⟩
  refine ⟨Call.exec_valid cfg _ hvs, ?_⟩
  change _ = (_, shelfOf k (c.exec s.clock s.db).2)
  by_cases hk : addressee c = some k
  · have hown : ∀ pks, c = .storePrekeys k.1 k.2 pks → ∀ pk ∈ pks,
        ∀ row ∈ s.db.oneTimePrekeys, row.prekeyId = pk.prekeyId → ofDevice k row := by
      rintro pks rfl pk hpk
      exact hun pk (by simpa [storedFor] using hpk)
    obtain ⟨hans, hshelf⟩ := exec_eq_play s.clock hvs hk hown
    have hcall : callTo k ⟨i, .devices c, s⟩ = some c := if_pos hk
    simp only [callsTo, answersTo] at hplay
    simp only [callsTo, answersTo, List.filterMap_append, List.filterMap_cons, hcall,
      List.filterMap_nil, Shelf.playAll_snoc, hplay, Option.bind_some, hans, hshelf]
    cases (Shelf.play c (shelfOf k s.db)).1 <;> rfl
  · have hcall : callTo k ⟨i, .devices c, s⟩ = none := if_neg hk
    rw [exec_other hvs hc hk]
    simpa [callsTo, answersTo, hcall] using hplay

end Runs

/-- Devices do not interfere through prekeys, as long as prekeys are stored for the device under ids
that no other device uses: in any two runs with the same calls to the device, these have the same
answers. -/
theorem same_answers (cfg : ServerConfig) {init : Server} (hv : init.db.Valid)
    (k : UserId × DeviceId) {acts₁ acts₂ : List Act} (hops₁ : ∀ o, .spawn o ∈ acts₁ → prekeyOp o)
    (hops₂ : ∀ o, .spawn o ∈ acts₂ → prekeyOp o)
    (hun₁ : ∀ ev ∈ (serve cfg init acts₁).trace, Unshared k ev)
    (hun₂ : ∀ ev ∈ (serve cfg init acts₂).trace, Unshared k ev)
    (hsame : callsTo k (serve cfg init acts₁).trace = callsTo k (serve cfg init acts₂).trace) :
    answersTo k (serve cfg init acts₁).trace = answersTo k (serve cfg init acts₂).trace := by
  have h₁ := run_eq_playAll cfg hv hops₁ hun₁
  have h₂ := run_eq_playAll cfg hv hops₂ hun₂
  rw [hsame, h₂] at h₁
  exact (Prod.mk.inj h₁).1.symm

def twoDevices : Server where
  db :=
    { users := [{ (default : UserRecord) with userId := "u", username := "u" },
        { (default : UserRecord) with userId := "v", username := "v" }]
      devices := [{ (default : DeviceRecord) with deviceId := "d", userId := "u" },
        { (default : DeviceRecord) with deviceId := "d", userId := "v" }] }

/-- The second user stores a prekey under the id, if any; then the first one stores one and a bundle
is fetched. -/
def storeAfter (other : List String) : List Act :=
  [.spawn (.single (.devices (.storePrekeys "v" "d" (other.map fun i => ⟨i, "d", "y", none⟩)))),
   .run 0,
   .spawn (.single (.devices (.storePrekeys "u" "d" [⟨"k", "d", "x", none⟩]))), .run 1,
   .spawn (.single (.devices (.getPrekeyBundle "u" "d"))), .run 2]

theorem other_id_same_answers :
    (answersTo ("u", "d") (serve default twoDevices (storeAfter ["l"])).trace).length = 2 ∧
    answersTo ("u", "d") (serve default twoDevices (storeAfter [])).trace =
      answersTo ("u", "d") (serve default twoDevices (storeAfter ["l"])).trace :=
  ⟨by decide, same_answers default (by decide) ("u", "d")
    (by simp [storeAfter, prekeyOp, addressee])
    (by simp [storeAfter, prekeyOp, addressee]) (by decide) (by decide) (by decide)⟩

/-- The id is taken by the other account, so the prekey is refused and the bundle has none. -/
theorem taken_id_other_answers :
    callsTo ("u", "d") (serve default twoDevices (storeAfter [])).trace =
      callsTo ("u", "d") (serve default twoDevices (storeAfter ["k"])).trace ∧
    (answersTo ("u", "d") (serve default twoDevices (storeAfter [])).trace).head? =
      some (.done (.ok ())) ∧
    (answersTo ("u", "d") (serve default twoDevices (storeAfter ["k"])).trace).head? =
      some (.done (.error
        ⟨.internal, "UNIQUE constraint failed: one_time_prekeys.prekey_id"⟩)) := by
  refine ⟨by decide, by decide, by decide⟩

end VoxServer.Prekeys
