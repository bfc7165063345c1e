import Mathlib.Data.List.Sort
import VoxServer.Store.Schema

/-! # The device repository

Devices and their one-time prekeys. A prekey is handed out by marking it
consumed in the same transaction; revoking a device is final and deletes its
prekeys.
-/

namespace VoxServer

open Table

structure PrekeyRecord where
  prekeyId : String
  deviceId : DeviceId
  prekeyPublic : String
  consumedAt : Option Timestamp := none
  deriving DecidableEq, Repr

structure PrekeyBundle where
  identityKeyPublic : String
  signedPrekeyPublic : String
  signedPrekeySignature : String
  oneTimePrekeyPublic : Option String := none
  oneTimePrekeyId : Option String := none
  deriving DecidableEq, Repr

def DeviceRecord.publicKeys (d : DeviceRecord) : String × String × String :=
  (d.identityKeyPublic, d.signedPrekeyPublic, d.signedPrekeySignature)

def DeviceRecord.Keyed (d : DeviceRecord) : Prop :=
  d.identityKeyPublic ≠ "" ∧ d.signedPrekeyPublic ≠ "" ∧ d.signedPrekeySignature ≠ ""

instance (d : DeviceRecord) : Decidable d.Keyed := inferInstanceAs (Decidable (_ ∧ _))

namespace DeviceRepository

/-- `INSERT INTO devices`. -/
def insertDevice (device : DeviceRecord) (db : Database) : Except SqliteError Database := do
  checkUnique "devices.user_id, devices.device_id" DeviceRecord.key device db.devices
  checkReference UserRecord.userId device.userId db.users
  return { db with devices := db.devices ++ [device] }

def registerDevice (device : DeviceRecord) (db : Database) : VoidResult × Database :=
  match insertDevice device db with
  | .ok db' => (.ok (), db')
  | .error .full => (.error SqliteError.full.toInternal, db)
  | .error _ => (.error ⟨.alreadyExists, "Device already registered"⟩, db)

theorem insertDevice_ok {device : DeviceRecord} {db db' : Database}
    (h : insertDevice device db = .ok db') :
    (∀ d ∈ db.devices, d.key ≠ device.key) ∧ (∃ u ∈ db.users, u.userId = device.userId) ∧
    db' = { db with devices := db.devices ++ [device] } := by
  obtain ⟨hkey, h⟩ := checkUnique_bind_ok.mp h
  obtain ⟨hu, h⟩ := checkReference_bind_ok.mp h
  cases h
  exact ⟨hkey, hu, rfl⟩

theorem registerDevice_cases (device : DeviceRecord) (db : Database) :
    ((∃ d ∈ db.devices, d.key = device.key) ∨ ¬ ∃ u ∈ db.users, u.userId = device.userId) ∧
      registerDevice device db = (.error ⟨.alreadyExists, "Device already registered"⟩, db) ∨
    (∀ d ∈ db.devices, d.key ≠ device.key) ∧ (∃ u ∈ db.users, u.userId = device.userId) ∧
      registerDevice device db = (.ok (), { db with devices := db.devices ++ [device] }) := by
  by_cases hd : ∃ d ∈ db.devices, d.key = device.key
  · refine .inl ⟨.inl hd, ?_⟩
    rw [registerDevice, insertDevice, checkUnique, if_pos hd]
    rfl
  by_cases hu : ∃ u ∈ db.users, u.userId = device.userId
  · refine .inr ⟨fun d hm he => hd ⟨d, hm, he⟩, hu, ?_⟩
    rw [registerDevice, insertDevice, checkUnique, if_neg hd, checkReference, if_pos hu]
    rfl
  · refine .inl ⟨.inr hu, ?_⟩
    rw [registerDevice, insertDevice, checkUnique, if_neg hd, checkReference, if_neg hu]
    rfl

def getDevicesForUser (userId : UserId) (db : Database) : List DeviceRecord :=
  (db.devices.filter (·.userId = userId)).insertionSort fun a b => a.createdAt ≤ b.createdAt

def findByUserAndDevice (userId : UserId) (deviceId : DeviceId) (db : Database) :
    Option DeviceRecord :=
  db.devices.find? (·.key = (userId, deviceId))

def findAllByDeviceId (deviceId : DeviceId) (db : Database) : List DeviceRecord :=
  db.devices.filter (·.deviceId = deviceId)

/-- `UPDATE devices` on the row of one device. -/
def updateDevice (userId : UserId) (deviceId : DeviceId) (f : DeviceRecord → DeviceRecord)
    (db : Database) : Database :=
  { db with devices := updateWhere (·.key = (userId, deviceId)) f db.devices }

/-- `INSERT INTO one_time_prekeys`. -/
def insertPrekey (row : PrekeyRow) (db : Database) : Except SqliteError Database := do
  checkUnique "one_time_prekeys.prekey_id" PrekeyRow.prekeyId row db.oneTimePrekeys
  checkReference DeviceRecord.key (row.userId, row.deviceId) db.devices
  return { db with oneTimePrekeys := db.oneTimePrekeys ++ [row] }

/-- The loop of `storePrekeys`. -/
def insertPrekeys (userId : UserId) (deviceId : DeviceId) :
    List PrekeyRecord → Database → Except SqliteError Database
  | [], db => .ok db
  | pk :: pks, db => do
    let db' ← insertPrekey
      { prekeyId := pk.prekeyId, userId, deviceId, prekeyPublic := pk.prekeyPublic } db
    insertPrekeys userId deviceId pks db'

def storePrekeys (userId : UserId) (deviceId : DeviceId) (prekeys : List PrekeyRecord)
    (now : Timestamp) (db : Database) : VoidResult × Database :=
  match insertPrekeys userId deviceId prekeys db with
  | .ok db' =>
    (.ok (), updateDevice userId deviceId (fun d => { d with lastPrekeyRefreshAt := some now }) db')
  | .error e => (.error e.toInternal, db)

/-- The condition `user_id = ? AND device_id = ? AND consumed_at IS NULL`. -/
def available (userId : UserId) (deviceId : DeviceId) (p : PrekeyRow) : Bool :=
  p.userId = userId ∧ p.deviceId = deviceId ∧ p.consumedAt = none

def consumeOneAvailableOtpLocked (userId : UserId) (deviceId : DeviceId) (now : Timestamp)
    (db : Database) : Option PrekeyRecord × Database :=
  match db.oneTimePrekeys.find? (available userId deviceId) with
  | none => (none, db)
  | some row =>
    let p := fun r : PrekeyRow => decide (r.prekeyId = row.prekeyId ∧ r.consumedAt = none)
    let consume := fun r : PrekeyRow => { r with consumedAt := some now }
    let db' := { db with oneTimePrekeys := updateWhere p consume db.oneTimePrekeys }
    if db.oneTimePrekeys.countP p = 0 then (none, db') else
    (some { prekeyId := row.prekeyId, deviceId, prekeyPublic := row.prekeyPublic
            consumedAt := some now }, db')

def getPrekeyBundle (userId : UserId) (deviceId : DeviceId) (now : Timestamp) (db : Database) :
    Result PrekeyBundle × Database :=
  match findByUserAndDevice userId deviceId db with
  | none => (.error ⟨.notFound, "Device not found"⟩, db)
  | some dev =>
    if dev.revokedAt.isSome then (.error ⟨.forbidden, "Device revoked"⟩, db) else
    let (otp, db') := consumeOneAvailableOtpLocked userId deviceId now db
    (.ok { identityKeyPublic := dev.identityKeyPublic
           signedPrekeyPublic := dev.signedPrekeyPublic
           signedPrekeySignature := dev.signedPrekeySignature
           oneTimePrekeyId := otp.map (·.prekeyId)
           oneTimePrekeyPublic := otp.map (·.prekeyPublic) }, db')

def consumeOneTimePrekey (userId : UserId) (deviceId : DeviceId) (now : Timestamp)
    (db : Database) : Result PrekeyRecord × Database :=
  match consumeOneAvailableOtpLocked userId deviceId now db with
  | (none, _) => (.error ⟨.notFound, "No available prekeys"⟩, db)
  | (some consumed, db') => (.ok consumed, db')

def updateSignedPrekey (userId : UserId) (deviceId : DeviceId)
    (signedPrekeyPublic signedPrekeySignature : String) (now : Timestamp) (db : Database) :
    VoidResult × Database :=
  let p := fun d : DeviceRecord => decide (d.key = (userId, deviceId) ∧ d.revokedAt = none)
  let set := fun d : DeviceRecord =>
    { d with signedPrekeyPublic, signedPrekeySignature, lastPrekeyRefreshAt := some now }
  let db' := { db with devices := updateWhere p set db.devices }
  if db.devices.countP p = 0 then (.error ⟨.notFound, "Device not found"⟩, db') else (.ok (), db')

def revokeDevice (userId : UserId) (deviceId : DeviceId) (now : Timestamp) (db : Database) :
    VoidResult × Database :=
  let p := fun d : DeviceRecord => decide (d.key = (userId, deviceId) ∧ d.revokedAt = none)
  if db.devices.countP p = 0 then (.error ⟨.notFound, "Device not found"⟩, db) else
  (.ok (), { db with
    devices := updateWhere p (fun d => { d with revokedAt := some now }) db.devices
    oneTimePrekeys :=
      deleteWhere (fun r => r.userId = userId ∧ r.deviceId = deviceId) db.oneTimePrekeys })

def updateLastSeen (userId : UserId) (deviceId : DeviceId) (now : Timestamp) (db : Database) :
    VoidResult × Database :=
  (.ok (), updateDevice userId deviceId (fun d => { d with lastSeenAt := now }) db)

def countAvailableOneTimePrekeys (userId : UserId) (deviceId : DeviceId) (db : Database) : ℕ :=
  db.oneTimePrekeys.countP (available userId deviceId)

end DeviceRepository

namespace Database

def ActiveDevice (db : Database) (k : UserId × DeviceId) : Prop :=
  ∃ d ∈ db.devices, d.key = k ∧ d.revokedAt = none

def RevokedDevice (db : Database) (k : UserId × DeviceId) : Prop :=
  ∃ d ∈ db.devices, d.key = k ∧ d.revokedAt ≠ none

instance (db : Database) (k : UserId × DeviceId) : Decidable (db.ActiveDevice k) :=
  inferInstanceAs (Decidable (∃ d ∈ db.devices, _))

instance (db : Database) (k : UserId × DeviceId) : Decidable (db.RevokedDevice k) :=
  inferInstanceAs (Decidable (∃ d ∈ db.devices, _))

theorem RevokedDevice.not_active {db : Database} {k : UserId × DeviceId} (h : db.Valid)
    (hr : db.RevokedDevice k) : ¬ db.ActiveDevice k := by
  rintro ⟨d, hd, hk, ha⟩
  obtain ⟨d', hd', hk', hr'⟩ := hr
  rw [h.devices_pk.eq_of_mem hd hd' (hk.trans hk'.symm)] at ha
  exact hr' ha

end Database

namespace DeviceRepository

theorem mem_getDevicesForUser {u : UserId} {db : Database} {dev : DeviceRecord} :
    dev ∈ getDevicesForUser u db ↔ dev ∈ db.devices ∧ dev.userId = u := by
  simp [getDevicesForUser]

theorem nodup_getDevicesForUser {db : Database} (h : db.Valid) (u : UserId) :
    ((getDevicesForUser u db).map (·.deviceId)).Nodup := by
  refine (List.Perm.map _ (List.perm_insertionSort _ _)).nodup_iff.mpr ?_
  refine h.devices_pk.nodup_map_filter fun r r' hr hr' he => ?_
  simp only [decide_eq_true_eq] at hr hr'
  exact Prod.ext (hr.trans hr'.symm) he

/-- The table after the unconsumed prekey of `row` is marked consumed. -/
def markConsumed (row : PrekeyRow) (now : Timestamp) (db : Database) : Database :=
  let p := fun r : PrekeyRow => decide (r.prekeyId = row.prekeyId ∧ r.consumedAt = none)
  { db with
    oneTimePrekeys := updateWhere p (fun r => { r with consumedAt := some now }) db.oneTimePrekeys }

theorem available_iff {u : UserId} {d : DeviceId} {p : PrekeyRow} :
    available u d p ↔ p.userId = u ∧ p.deviceId = d ∧ p.consumedAt = none := by
  simp [available]

theorem consumeOneAvailableOtpLocked_eq (u : UserId) (d : DeviceId) (now : Timestamp)
    (db : Database) : consumeOneAvailableOtpLocked u d now db =
      let row := db.oneTimePrekeys.find? (available u d)
      (row.map fun row =>
          { prekeyId := row.prekeyId, deviceId := d, prekeyPublic := row.prekeyPublic
            consumedAt := some now },
        row.elim db fun row => markConsumed row now db) := by
  unfold consumeOneAvailableOtpLocked
  cases hf : db.oneTimePrekeys.find? (available u d) with
  | none => rfl
  | some row =>
    have hm := List.mem_of_find?_eq_some hf
    have ha := List.find?_some hf
    have hpos : db.oneTimePrekeys.countP
        (fun r => decide (r.prekeyId = row.prekeyId ∧ r.consumedAt = none)) ≠ 0 := by
      rw [Ne, List.countP_eq_zero]
      intro h
      exact h row hm (by simp [(available_iff.mp ha).2.2])
    simp only [if_neg hpos, markConsumed, Option.map_some, Option.elim_some]

theorem consumeOneAvailableOtpLocked_cases (u : UserId) (d : DeviceId) (now : Timestamp)
    (db : Database) :
    ((∀ p ∈ db.oneTimePrekeys, ¬ available u d p) ∧
      consumeOneAvailableOtpLocked u d now db = (none, db)) ∨
    ∃ row ∈ db.oneTimePrekeys, available u d row ∧ consumeOneAvailableOtpLocked u d now db =
      (some { prekeyId := row.prekeyId, deviceId := d, prekeyPublic := row.prekeyPublic
              consumedAt := some now }, markConsumed row now db) := by
  rw [consumeOneAvailableOtpLocked_eq]
  cases hf : db.oneTimePrekeys.find? (available u d) with
  | none => exact .inl ⟨List.find?_eq_none.mp hf, rfl⟩
  | some row => exact .inr ⟨row, List.mem_of_find?_eq_some hf, List.find?_some hf, rfl⟩

theorem findByUserAndDevice_some {u : UserId} {d : DeviceId} {db : Database} {dev : DeviceRecord}
    (h : findByUserAndDevice u d db = some dev) : dev ∈ db.devices ∧ dev.key = (u, d) :=
  ⟨List.mem_of_find?_eq_some h, by simpa using List.find?_some h⟩

/-- A bundle comes from an active device; its one-time prekey was available and is consumed. -/
theorem getPrekeyBundle_ok {u : UserId} {d : DeviceId} {now : Timestamp} {db : Database}
    {b : PrekeyBundle} (h : (getPrekeyBundle u d now db).1 = .ok b) :
    db.ActiveDevice (u, d) ∧
    ((b.oneTimePrekeyId = none ∧ (∀ p ∈ db.oneTimePrekeys, ¬ available u d p) ∧
      (getPrekeyBundle u d now db).2 = db) ∨
    ∃ row ∈ db.oneTimePrekeys, available u d row ∧ b.oneTimePrekeyId = some row.prekeyId ∧
      (getPrekeyBundle u d now db).2 = markConsumed row now db) := by
  unfold getPrekeyBundle at h ⊢
  split at h
  · cases h
  · rename_i dev hdev
    obtain ⟨hm, hk⟩ := findByUserAndDevice_some hdev
    split at h
    · cases h
    · rename_i hr
      refine ⟨⟨dev, hm, hk, by simpa using hr⟩, ?_⟩
      simp only [if_neg hr]
      rcases consumeOneAvailableOtpLocked_cases u d now db with ⟨hn, he⟩ | ⟨row, hrow, ha, he⟩
      · simp only [he, Option.map_none, Except.ok.injEq] at h ⊢
        subst h
        exact .inl ⟨rfl, hn, trivial⟩
      · simp only [he, Option.map_some, Except.ok.injEq] at h ⊢
        subst h
        exact .inr ⟨row, hrow, ha, rfl, rfl⟩

theorem getPrekeyBundle_snd (u : UserId) (d : DeviceId) (now : Timestamp) (db : Database) :
    (getPrekeyBundle u d now db).2 = db ∨ ∃ row ∈ db.oneTimePrekeys, available u d row ∧
      (getPrekeyBundle u d now db).2 = markConsumed row now db := by
  cases hb : (getPrekeyBundle u d now db).1 with
  | ok b =>
    rcases (getPrekeyBundle_ok hb).2 with ⟨-, -, he⟩ | ⟨row, hrow, ha, -, he⟩
    · exact .inl he
    · exact .inr ⟨row, hrow, ha, he⟩
  | error e =>
    left
    unfold getPrekeyBundle at hb ⊢
    split at hb
    · rfl
    · split at hb
      · rename_i hr
        rw [if_pos hr]
      · cases hb

theorem getPrekeyBundle_congr {db db' : Database} (hd : db.devices = db'.devices)
    (hp : db.oneTimePrekeys = db'.oneTimePrekeys) (u : UserId) (d : DeviceId) (now : Timestamp) :
    (getPrekeyBundle u d now db).1 = (getPrekeyBundle u d now db').1 ∧
      (getPrekeyBundle u d now db).2.devices = (getPrekeyBundle u d now db').2.devices ∧
      (getPrekeyBundle u d now db).2.oneTimePrekeys =
        (getPrekeyBundle u d now db').2.oneTimePrekeys := by
  unfold getPrekeyBundle findByUserAndDevice consumeOneAvailableOtpLocked
  rw [hd, hp]
  cases db'.devices.find? fun r => decide (r.key = (u, d)) with
  | none => exact ⟨rfl, hd, hp⟩
  | some dev =>
    dsimp only
    split
    · exact ⟨rfl, hd, hp⟩
    · cases db'.oneTimePrekeys.find? (available u d) with
      | none => exact ⟨rfl, hd, hp⟩
      | some row =>
        dsimp only
        split
        · exact ⟨rfl, rfl, rfl⟩
        · exact ⟨rfl, rfl, rfl⟩

theorem insertPrekeys_ok {u : UserId} {d : DeviceId} {pks : List PrekeyRecord}
    {db db' : Database} (h : insertPrekeys u d pks db = .ok db') :
    ∃ rows : List PrekeyRow, db' = { db with oneTimePrekeys := db.oneTimePrekeys ++ rows } ∧
      (∀ r ∈ rows, available u d r) ∧
      (db.Valid → UniqueOn PrekeyRow.prekeyId (db.oneTimePrekeys ++ rows) ∧
        References (fun p => (p.userId, p.deviceId)) DeviceRecord.key
          (db.oneTimePrekeys ++ rows) db.devices) := by
  induction pks generalizing db with
  | nil =>
    cases h
    exact ⟨[], by simp, by simp, fun hv => by simpa using ⟨hv.prekeys_pk, hv.prekeys_device⟩⟩
  | cons pk pks ih =>
    unfold insertPrekeys insertPrekey at h
    simp only [bind_assoc] at h
    obtain ⟨hu, h⟩ := checkUnique_bind_ok.mp h
    obtain ⟨hr, h⟩ := checkReference_bind_ok.mp h
    simp only [pure_bind] at h
    obtain ⟨rows, rfl, hrows, hv'⟩ := ih h
    refine ⟨⟨pk.prekeyId, u, d, pk.prekeyPublic, none⟩ :: rows,
      by simp only [List.append_assoc, List.singleton_append], ?_, ?_⟩
    · exact List.forall_mem_cons.mpr ⟨by simp [available], hrows⟩
    · intro hv
      simpa only [List.append_assoc, List.singleton_append] using hv' { hv with
        prekeys_pk := uniqueOn_append_singleton.mpr ⟨hv.prekeys_pk, hu⟩
        prekeys_device := hv.prekeys_device.append_singleton hr }

def markRevoked (u : UserId) (d : DeviceId) (now : Timestamp) (db : Database) : Database :=
  { db with
    devices := updateWhere (fun r => r.key = (u, d) ∧ r.revokedAt = none)
      (fun r => { r with revokedAt := some now }) db.devices
    oneTimePrekeys := deleteWhere (fun r => r.userId = u ∧ r.deviceId = d) db.oneTimePrekeys }

theorem revokeDevice_cases (u : UserId) (d : DeviceId) (now : Timestamp) (db : Database) :
    (db.ActiveDevice (u, d) ∧ revokeDevice u d now db = (.ok (), markRevoked u d now db)) ∨
    (¬ db.ActiveDevice (u, d) ∧
      revokeDevice u d now db = (.error ⟨.notFound, "Device not found"⟩, db)) := by
  unfold revokeDevice
  by_cases hd : db.ActiveDevice (u, d)
  · refine .inl ⟨hd, if_neg fun h0 => ?_⟩
    obtain ⟨r, hr, hp⟩ := hd
    exact List.countP_eq_zero.mp h0 r hr (by simpa using hp)
  · refine .inr ⟨hd, if_pos (List.countP_eq_zero.mpr fun r hr hp => ?_)⟩
    exact hd ⟨r, hr, by simpa using hp⟩

theorem mem_markRevoked {u : UserId} {d : DeviceId} {now : Timestamp} {db : Database}
    {r : DeviceRecord} (hr : r ∈ (markRevoked u d now db).devices) :
    ∃ r₀ ∈ db.devices, r.key = r₀.key ∧ r.userId = r₀.userId ∧
      (r.revokedAt = none → r₀.revokedAt = none ∧ r.key ≠ (u, d)) := by
  obtain ⟨r₀, hr₀, rfl⟩ := mem_updateWhere.mp hr
  refine ⟨r₀, hr₀, ?_⟩
  split
  · exact ⟨rfl, rfl, nofun⟩
  · rename_i hp
    refine ⟨rfl, rfl, fun hn => ⟨hn, fun hk => hp ?_⟩⟩
    simp [hk, hn]

end DeviceRepository

/-- The calls of the repository, each one atomic. -/
inductive DeviceCall
  | registerDevice (device : DeviceRecord)
  | getDevicesForUser (userId : UserId)
  | findByUserAndDevice (userId : UserId) (deviceId : DeviceId)
  | findAllByDeviceId (deviceId : DeviceId)
  | storePrekeys (userId : UserId) (deviceId : DeviceId) (prekeys : List PrekeyRecord)
  | getPrekeyBundle (userId : UserId) (deviceId : DeviceId)
  | consumeOneTimePrekey (userId : UserId) (deviceId : DeviceId)
  | updateSignedPrekey (userId : UserId) (deviceId : DeviceId)
      (signedPrekeyPublic signedPrekeySignature : String) (now : Timestamp)
  | revokeDevice (userId : UserId) (deviceId : DeviceId) (now : Timestamp)
  | updateLastSeen (userId : UserId) (deviceId : DeviceId) (now : Timestamp)
  | countAvailableOneTimePrekeys (userId : UserId) (deviceId : DeviceId)
  deriving DecidableEq, Repr

namespace DeviceCall

open DeviceRepository

@[reducible] def Reply : DeviceCall → Type
  | registerDevice _ => VoidResult
  | getDevicesForUser _ => List DeviceRecord
  | findByUserAndDevice .. => Option DeviceRecord
  | findAllByDeviceId _ => List DeviceRecord
  | storePrekeys .. => VoidResult
  | getPrekeyBundle .. => Result PrekeyBundle
  | consumeOneTimePrekey .. => Result PrekeyRecord
  | updateSignedPrekey .. => VoidResult
  | revokeDevice .. => VoidResult
  | updateLastSeen .. => VoidResult
  | countAvailableOneTimePrekeys .. => ℕ

/-- Three of the functions read the system clock themselves; it shows `clock`. -/
def exec (clock : Timestamp) : (c : DeviceCall) → Database → c.Reply × Database
  | registerDevice d, db => DeviceRepository.registerDevice d db
  | getDevicesForUser u, db => (DeviceRepository.getDevicesForUser u db, db)
  | findByUserAndDevice u d, db => (DeviceRepository.findByUserAndDevice u d db, db)
  | findAllByDeviceId d, db => (DeviceRepository.findAllByDeviceId d db, db)
  | storePrekeys u d pks, db => DeviceRepository.storePrekeys u d pks clock db
  | getPrekeyBundle u d, db => DeviceRepository.getPrekeyBundle u d clock db
  | consumeOneTimePrekey u d, db => DeviceRepository.consumeOneTimePrekey u d clock db
  | updateSignedPrekey u d pub sig now, db => DeviceRepository.updateSignedPrekey u d pub sig now db
  | revokeDevice u d now, db => DeviceRepository.revokeDevice u d now db
  | updateLastSeen u d now, db => DeviceRepository.updateLastSeen u d now db
  | countAvailableOneTimePrekeys u d, db =>
    (DeviceRepository.countAvailableOneTimePrekeys u d db, db)

inductive Effect (db : Database) : DeviceCall → Database → Prop
  | same (c : DeviceCall) : Effect db c db
  | register (d : DeviceRecord) (db' : Database) (h : insertDevice d db = .ok db') :
      Effect db (.registerDevice d) db'
  | touch (c : DeviceCall) (p : DeviceRecord → Bool) (f : DeviceRecord → DeviceRecord)
      (hf : ∀ d, (f d).key = d.key ∧ (f d).revokedAt = d.revokedAt) :
      Effect db c { db with devices := updateWhere p f db.devices }
  | store (u : UserId) (d : DeviceId) (pks : List PrekeyRecord) (now : Timestamp) (db' : Database)
      (h : insertPrekeys u d pks db = .ok db') : Effect db (.storePrekeys u d pks)
        (updateDevice u d (fun d => { d with lastPrekeyRefreshAt := some now }) db')
  | consume (c : DeviceCall) (now : Timestamp) (row : PrekeyRow) :
      Effect db c (markConsumed row now db)
  | revoke (u : UserId) (d : DeviceId) (now : Timestamp) (h : db.ActiveDevice (u, d)) :
      Effect db (.revokeDevice u d now) (markRevoked u d now db)

theorem exec_effect (clock : Timestamp) (c : DeviceCall) (db : Database) :
    Effect db c (c.exec clock db).2 := by
  cases c with
  | registerDevice d =>
    simp only [exec, DeviceRepository.registerDevice]
    split
    · exact .register d _ ‹_›
    · exact .same _
    · exact .same _
  | getDevicesForUser u => exact .same _
  | findByUserAndDevice u d => exact .same _
  | findAllByDeviceId d => exact .same _
  | storePrekeys u d pks =>
    simp only [exec, DeviceRepository.storePrekeys]
    split
    · exact .store u d pks clock _ ‹_›
    · exact .same _
  | getPrekeyBundle u d =>
    rcases getPrekeyBundle_snd u d clock db with he | ⟨row, -, -, he⟩
    · simp only [exec, he]; exact .same _
    · simp only [exec, he]; exact .consume _ clock row
  | consumeOneTimePrekey u d =>
    simp only [exec, DeviceRepository.consumeOneTimePrekey]
    rcases consumeOneAvailableOtpLocked_cases u d clock db with ⟨-, he⟩ | ⟨row, -, -, he⟩
    · rw [he]; exact .same _
    · rw [he]; exact .consume _ clock row
  | updateSignedPrekey u d pub sig now =>
    simp only [exec, DeviceRepository.updateSignedPrekey]
    split <;> exact .touch _ _ _ fun _ => ⟨rfl, rfl⟩
  | revokeDevice u d now =>
    rcases revokeDevice_cases u d now db with ⟨hd, he⟩ | ⟨-, he⟩
    · simp only [exec, he]; exact .revoke u d now hd
    · simp only [exec, he]; exact .same _
  | updateLastSeen u d now => exact .touch _ _ _ fun _ => ⟨rfl, rfl⟩
  | countAvailableOneTimePrekeys u d => exact .same _

variable {c : DeviceCall} {db db' : Database} {k : UserId × DeviceId}

theorem Effect.frame (he : Effect db c db') :
    ∃ ds pks, db' = { db with devices := ds, oneTimePrekeys := pks } := by
  cases he with
  | same => exact ⟨_, _, rfl⟩
  | register d _ h =>
    obtain ⟨-, -, rfl⟩ := insertDevice_ok h
    exact ⟨_, _, rfl⟩
  | touch => exact ⟨_, _, rfl⟩
  | store u d pks now db₁ h => obtain ⟨rows, rfl, -⟩ := insertPrekeys_ok h; exact ⟨_, _, rfl⟩
  | consume => exact ⟨_, _, rfl⟩
  | revoke => exact ⟨_, _, rfl⟩

theorem Effect.keeps_device (he : Effect db c db') (h : ∃ d ∈ db.devices, d.key = k) :
    ∃ d ∈ db'.devices, d.key = k := by
  cases he with
  | same => exact h
  | register d _ hins =>
    obtain ⟨-, -, rfl⟩ := insertDevice_ok hins
    obtain ⟨d', hd', hk⟩ := h
    exact ⟨d', List.mem_append_left _ hd', hk⟩
  | touch c p f hf => exact (exists_key_updateWhere fun d => (hf d).1).mpr h
  | store u d pks now db₁ hins =>
    obtain ⟨rows, rfl, -⟩ := insertPrekeys_ok hins
    refine (exists_key_updateWhere ?_).mpr h
    exact fun _ => rfl
  | consume => exact h
  | revoke u d now ha =>
    refine (exists_key_updateWhere ?_).mpr h
    exact fun _ => rfl

/-- Each device has the public keys of one there was before. -/
def KeepsKeys (db db' : Database) : Prop :=
  ∀ d ∈ db'.devices, ∃ d₀ ∈ db.devices, d.publicKeys = d₀.publicKeys

theorem keepsKeys_of_eq (h : db'.devices = db.devices) : KeepsKeys db db' :=
  fun d hd => ⟨d, h ▸ hd, rfl⟩

theorem keepsKeys_updateWhere {p : DeviceRecord → Bool} {f : DeviceRecord → DeviceRecord}
    (h : db'.devices = updateWhere p f db.devices) (hf : ∀ d, (f d).publicKeys = d.publicKeys) :
    KeepsKeys db db' := by
  intro d hd
  rw [h] at hd
  obtain ⟨d₀, hd₀, rfl⟩ := mem_updateWhere.mp hd
  refine ⟨d₀, hd₀, ?_⟩
  split
  · exact hf d₀
  · rfl

theorem exec_keepsKeys (clock : Timestamp) (hreg : ∀ d, c ≠ .registerDevice d)
    (hupd : ∀ u i pub sig now, c ≠ .updateSignedPrekey u i pub sig now) :
    KeepsKeys db (c.exec clock db).2 := by
  cases c with
  | registerDevice d => exact absurd rfl (hreg d)
  | updateSignedPrekey u i pub sig now => exact absurd rfl (hupd u i pub sig now)
  | storePrekeys u i pks =>
    simp only [exec, DeviceRepository.storePrekeys]
    split
    · rename_i hins
      obtain ⟨rows, rfl, -⟩ := insertPrekeys_ok hins
      exact keepsKeys_updateWhere rfl fun _ => rfl
    · exact keepsKeys_of_eq rfl
  | getPrekeyBundle u i =>
    rcases getPrekeyBundle_snd u i clock db with he | ⟨row, -, -, he⟩
    · exact keepsKeys_of_eq (by simp only [exec, he])
    · exact keepsKeys_of_eq (by simp only [exec, he]; rfl)
  | consumeOneTimePrekey u i =>
    simp only [exec, DeviceRepository.consumeOneTimePrekey]
    rcases consumeOneAvailableOtpLocked_cases u i clock db with ⟨-, he⟩ | ⟨row, -, -, he⟩
    · exact keepsKeys_of_eq (by rw [he])
    · exact keepsKeys_of_eq (by rw [he]; rfl)
  | revokeDevice u i now =>
    rcases revokeDevice_cases u i now db with ⟨-, he⟩ | ⟨-, he⟩
    · simp only [exec, he]
      exact keepsKeys_updateWhere rfl fun _ => rfl
    · exact keepsKeys_of_eq (by simp only [exec, he])
  | updateLastSeen u i now => exact keepsKeys_updateWhere rfl fun _ => rfl
  | _ => exact keepsKeys_of_eq rfl

/-- The public keys of a device are those it was registered with, but for the signed prekey, which
can be replaced. -/
theorem publicKeys_of_exec {clock : Timestamp} {d : DeviceRecord}
    (hd : d ∈ (c.exec clock db).2.devices) :
    (∃ d₀ ∈ db.devices, d.publicKeys = d₀.publicKeys) ∨ c = .registerDevice d ∨
      ∃ u i pub sig now, c = .updateSignedPrekey u i pub sig now ∧
        ∃ d₀ ∈ db.devices, d.publicKeys = (d₀.identityKeyPublic, pub, sig) := by
  cases c with
  | registerDevice r =>
    rcases registerDevice_cases r db with ⟨-, he⟩ | ⟨-, -, he⟩
    · simp only [exec, he] at hd
      exact .inl ⟨d, hd, rfl⟩
    · simp only [exec, he] at hd
      rcases List.mem_append.mp hd with hd | hd
      · exact .inl ⟨d, hd, rfl⟩
      · rw [List.mem_singleton.mp hd]
        exact .inr (.inl rfl)
  | updateSignedPrekey u i pub sig now =>
    have hd : d ∈ updateWhere (fun d => decide (d.key = (u, i) ∧ d.revokedAt = none))
        (fun d => { d with signedPrekeyPublic := pub, signedPrekeySignature := sig
                           lastPrekeyRefreshAt := some now }) db.devices := by
      simp only [exec, DeviceRepository.updateSignedPrekey] at hd
      split at hd <;> exact hd
    obtain ⟨d₀, hd₀, rfl⟩ := mem_updateWhere.mp hd
    split
    · exact .inr (.inr ⟨u, i, pub, sig, now, rfl, d₀, hd₀, rfl⟩)
    · exact .inl ⟨d₀, hd₀, rfl⟩
  | _ => exact .inl (exec_keepsKeys clock (by simp) (by simp) d hd)

theorem valid_updateDevices {p : DeviceRecord → Bool} {f : DeviceRecord → DeviceRecord}
    (hf : ∀ d, (f d).key = d.key) (h : db.Valid) :
    Database.Valid { db with devices := updateWhere p f db.devices } :=
  { h with
    devices_pk := h.devices_pk.updateWhere hf
    devices_user := h.devices_user.updateWhere fun d => congrArg Prod.fst (hf d)
    prekeys_device := h.prekeys_device.updateWhere_parents hf
    sessions_device := h.sessions_device.updateWhere_parents hf
    envelopes_sender := h.envelopes_sender.updateWhere_parents hf
    delivery_device := h.delivery_device.updateWhere_parents hf }

theorem Effect.valid (he : Effect db c db') (h : db.Valid) : db'.Valid := by
  cases he with
  | same => exact h
  | register d _ hins =>
    obtain ⟨hnew, hu, rfl⟩ := insertDevice_ok hins
    exact { h with
      devices_pk := uniqueOn_append_singleton.mpr ⟨h.devices_pk, hnew⟩
      devices_user := h.devices_user.append_singleton hu
      prekeys_device := h.prekeys_device.append_parents _
      sessions_device := h.sessions_device.append_parents _
      envelopes_sender := h.envelopes_sender.append_parents _
      delivery_device := h.delivery_device.append_parents _ }
  | touch c p f hf => exact valid_updateDevices (fun d => (hf d).1) h
  | store u d pks now db₁ hins =>
    obtain ⟨rows, rfl, -, hrows⟩ := insertPrekeys_ok hins
    exact valid_updateDevices (fun _ => rfl) { h with
      prekeys_pk := (hrows h).1
      prekeys_device := (hrows h).2 }
  | consume =>
    exact { h with
      prekeys_pk := h.prekeys_pk.updateWhere fun _ => rfl
      prekeys_device := h.prekeys_device.updateWhere fun _ => rfl }
  | revoke u d now ha =>
    have hv := valid_updateDevices (p := fun r => r.key = (u, d) ∧ r.revokedAt = none)
      (f := fun r => { r with revokedAt := some now }) (fun _ => rfl) h
    exact { hv with
      prekeys_pk := h.prekeys_pk.deleteWhere
      prekeys_device := hv.prekeys_device.deleteWhere }

/-- Revocation is final. -/
theorem Effect.revoked (he : Effect db c db') (h : db.RevokedDevice k) : db'.RevokedDevice k := by
  obtain ⟨d, hd, hk, hr⟩ := h
  have hupd : ∀ (p : DeviceRecord → Bool) (f : DeviceRecord → DeviceRecord),
      (∀ d, (f d).key = d.key ∧ (d.revokedAt ≠ none → (f d).revokedAt ≠ none)) →
      ∃ d ∈ updateWhere p f db.devices, d.key = k ∧ d.revokedAt ≠ none := by
    intro p f hf
    refine ⟨_, mem_updateWhere.mpr ⟨d, hd, rfl⟩, ?_⟩
    split
    · exact ⟨(hf d).1.trans hk, (hf d).2 hr⟩
    · exact ⟨hk, hr⟩
  cases he with
  | same => exact ⟨d, hd, hk, hr⟩
  | register d' _ hins =>
    obtain ⟨-, -, rfl⟩ := insertDevice_ok hins
    exact ⟨d, List.mem_append_left _ hd, hk, hr⟩
  | touch c p f hf => exact hupd p f fun d => ⟨(hf d).1, by rw [(hf d).2]; exact id⟩
  | store u d' pks now db₁ hins =>
    obtain ⟨rows, rfl, -⟩ := insertPrekeys_ok hins
    exact hupd _ _ fun d => ⟨rfl, id⟩
  | consume => exact ⟨d, hd, hk, hr⟩
  | revoke u d' now ha => exact hupd _ _ fun d => ⟨rfl, fun _ => nofun⟩

theorem Effect.active (he : Effect db c db') (hc : ∀ d, c = .registerDevice d → d.key ≠ k)
    (h : db'.ActiveDevice k) : db.ActiveDevice k := by
  have hupd : ∀ (p : DeviceRecord → Bool) (f : DeviceRecord → DeviceRecord),
      (∀ d, (f d).key = d.key ∧ (f d).revokedAt = d.revokedAt) →
      (∃ d ∈ updateWhere p f db.devices, d.key = k ∧ d.revokedAt = none) →
      db.ActiveDevice k := by
    rintro p f hf ⟨d, hd, hk, ha⟩
    obtain ⟨d₀, hd₀, rfl⟩ := mem_updateWhere.mp hd
    split at hk
    · rename_i hp
      rw [if_pos hp, (hf d₀).2] at ha
      exact ⟨d₀, hd₀, (hf d₀).1 ▸ hk, ha⟩
    · rename_i hp
      rw [if_neg hp] at ha
      exact ⟨d₀, hd₀, hk, ha⟩
  cases he with
  | same => exact h
  | register d _ hins =>
    obtain ⟨-, -, rfl⟩ := insertDevice_ok hins
    obtain ⟨d', hd', hk, ha⟩ := h
    rcases List.mem_append.mp hd' with hd' | hd'
    · exact ⟨d', hd', hk, ha⟩
    · rw [List.mem_singleton.mp hd'] at hk
      exact absurd hk (hc d rfl)
  | touch c p f hf => exact hupd p f hf h
  | store u d' pks now db₁ hins =>
    obtain ⟨rows, rfl, -⟩ := insertPrekeys_ok hins
    refine hupd _ _ ?_ h
    exact fun d => ⟨rfl, rfl⟩
  | consume => exact h
  | revoke u d' now =>
    obtain ⟨d, hd, hk, ha⟩ := h
    obtain ⟨d₀, hd₀, hkey, -, hn⟩ := mem_markRevoked hd
    exact ⟨d₀, hd₀, hkey ▸ hk, (hn ha).1⟩

end DeviceCall

end VoxServer
