import VoxServer.Store.Schema

/-! # The session repository

Sessions are inserted active, found by the hash of one of their tokens while
active, and revoked one at a time, for a user or for a device. A revoked session
never becomes active again.
-/

namespace VoxServer

open Table

namespace SessionRecord

/-- `revoked_at IS NULL`. -/
def Active (s : SessionRecord) : Prop := s.revokedAt = none

instance (s : SessionRecord) : Decidable s.Active := inferInstanceAs (Decidable (_ = _))

def revoke (now : Timestamp) (s : SessionRecord) : SessionRecord := { s with revokedAt := some now }

@[simp] theorem not_active_revoke (now : Timestamp) (s : SessionRecord) :
    ¬ (s.revoke now).Active := nofun

@[simp] theorem revoke_sessionId (now : Timestamp) (s : SessionRecord) :
    (s.revoke now).sessionId = s.sessionId := rfl

end SessionRecord

namespace SessionRepository

/-- `INSERT INTO sessions`; the statement leaves `revoked_at` out. -/
def insertSession (session : SessionRecord) (db : Database) : Except SqliteError Database := do
  let row := { session with revokedAt := none }
  checkUnique "sessions.session_id" SessionRecord.sessionId row db.sessions
  checkUnique "sessions.access_token_hash" SessionRecord.accessTokenHash row db.sessions
  checkUnique "sessions.refresh_token_hash" SessionRecord.refreshTokenHash row db.sessions
  checkReference UserRecord.userId row.userId db.users
  checkReference DeviceRecord.key (row.userId, row.deviceId) db.devices
  return { db with sessions := db.sessions ++ [row] }

def createSession (session : SessionRecord) (db : Database) : VoidResult × Database :=
  match insertSession session db with
  | .ok db' => (.ok (), db')
  | .error e => (.error e.toInternal, db)

def findByAccessToken (accessTokenHash : String) (db : Database) : Option SessionRecord :=
  db.sessions.find? fun s => s.accessTokenHash = accessTokenHash ∧ s.Active

def findByRefreshToken (refreshTokenHash : String) (db : Database) : Option SessionRecord :=
  db.sessions.find? fun s => s.refreshTokenHash = refreshTokenHash ∧ s.Active

/-- `UPDATE sessions SET revoked_at = now` on the active sessions that satisfy `p`. -/
def revokeWhere (p : SessionRecord → Bool) (now : Timestamp) (db : Database) : Database :=
  { db with sessions := updateWhere (fun s => p s ∧ s.Active) (·.revoke now) db.sessions }

def revokeSession (sessionId : String) (now : Timestamp) (db : Database) : VoidResult × Database :=
  let rows := db.sessions.countP fun s => s.sessionId = sessionId ∧ s.Active
  let db' := revokeWhere (·.sessionId = sessionId) now db
  if rows = 0 then (.error ⟨.notFound, "Session not found or already revoked"⟩, db')
  else (.ok (), db')

def revokeAllForUser (userId : UserId) (now : Timestamp) (db : Database) : VoidResult × Database :=
  (.ok (), revokeWhere (·.userId = userId) now db)

def revokeAllForDevice (userId : UserId) (deviceId : DeviceId) (now : Timestamp) (db : Database) :
    VoidResult × Database :=
  (.ok (), revokeWhere (fun s => s.userId = userId ∧ s.deviceId = deviceId) now db)

def cleanExpired (now : Timestamp) (db : Database) : ℕ × Database :=
  let p := fun s : SessionRecord => decide (s.refreshExpiresAt < now ∨ ¬ s.Active)
  (db.sessions.countP p, { db with sessions := deleteWhere p db.sessions })

def countActiveForUser (userId : UserId) (now : Timestamp) (db : Database) : ℕ :=
  db.sessions.countP fun s => s.userId = userId ∧ s.Active ∧ now < s.accessExpiresAt

theorem insertSession_ok {session : SessionRecord} {db db' : Database}
    (h : insertSession session db = .ok db') :
    (∀ s ∈ db.sessions, s.sessionId ≠ session.sessionId) ∧
    (∀ s ∈ db.sessions, s.accessTokenHash ≠ session.accessTokenHash) ∧
    (∀ s ∈ db.sessions, s.refreshTokenHash ≠ session.refreshTokenHash) ∧
    (∃ u ∈ db.users, u.userId = session.userId) ∧
    (∃ d ∈ db.devices, d.key = (session.userId, session.deviceId)) ∧
    db' = { db with sessions := db.sessions ++ [{ session with revokedAt := none }] } := by
  obtain ⟨hid, h⟩ := checkUnique_bind_ok.mp h
  obtain ⟨hacc, h⟩ := checkUnique_bind_ok.mp h
  obtain ⟨href, h⟩ := checkUnique_bind_ok.mp h
  obtain ⟨hu, h⟩ := checkReference_bind_ok.mp h
  obtain ⟨hd, h⟩ := checkReference_bind_ok.mp h
  cases h
  exact ⟨hid, hacc, href, hu, hd, rfl⟩

theorem insertSession_eq_ok {session : SessionRecord} {db : Database}
    (hid : ∀ s ∈ db.sessions, s.sessionId ≠ session.sessionId)
    (hacc : ∀ s ∈ db.sessions, s.accessTokenHash ≠ session.accessTokenHash)
    (href : ∀ s ∈ db.sessions, s.refreshTokenHash ≠ session.refreshTokenHash)
    (hu : ∃ u ∈ db.users, u.userId = session.userId)
    (hd : ∃ d ∈ db.devices, d.key = (session.userId, session.deviceId)) :
    insertSession session db =
      .ok { db with sessions := db.sessions ++ [{ session with revokedAt := none }] } :=
  checkUnique_bind_ok.mpr ⟨hid, checkUnique_bind_ok.mpr ⟨hacc, checkUnique_bind_ok.mpr ⟨href,
    checkReference_bind_ok.mpr ⟨hu, checkReference_bind_ok.mpr ⟨hd, rfl⟩⟩⟩⟩⟩

theorem createSession_cases (session : SessionRecord) (db : Database) :
    (∃ e, createSession session db = (.error e, db)) ∨
      createSession session db =
        (.ok (), { db with sessions := db.sessions ++ [{ session with revokedAt := none }] }) := by
  unfold createSession
  split
  · rename_i h
    obtain ⟨-, -, -, -, -, rfl⟩ := insertSession_ok h
    exact .inr rfl
  · exact .inl ⟨_, rfl⟩

theorem findByAccessToken_some {hash : String} {db : Database} {s : SessionRecord}
    (h : findByAccessToken hash db = some s) :
    s ∈ db.sessions ∧ s.accessTokenHash = hash ∧ s.Active :=
  ⟨List.mem_of_find?_eq_some h, by simpa using List.find?_some h⟩

theorem findByRefreshToken_some {hash : String} {db : Database} {s : SessionRecord}
    (h : findByRefreshToken hash db = some s) :
    s ∈ db.sessions ∧ s.refreshTokenHash = hash ∧ s.Active :=
  ⟨List.mem_of_find?_eq_some h, by simpa using List.find?_some h⟩

theorem findByRefreshToken_eq_some {hash : String} {db : Database} {s : SessionRecord}
    (h : db.Valid) : findByRefreshToken hash db = some s ↔
      s ∈ db.sessions ∧ s.refreshTokenHash = hash ∧ s.Active :=
  h.sessions_refresh.find?_iff

theorem findByAccessToken_eq_some {hash : String} {db : Database} {s : SessionRecord}
    (h : db.Valid) : findByAccessToken hash db = some s ↔
      s ∈ db.sessions ∧ s.accessTokenHash = hash ∧ s.Active :=
  h.sessions_access.find?_iff

theorem revokeSession_snd (i : String) (now : Timestamp) (db : Database) :
    (revokeSession i now db).2 = revokeWhere (·.sessionId = i) now db := by
  unfold revokeSession
  dsimp only
  split <;> rfl

theorem revokeSession_ok {i : String} {now : Timestamp} {db : Database} :
    (revokeSession i now db).1 = .ok () ↔ ∃ s ∈ db.sessions, s.sessionId = i ∧ s.Active := by
  simp only [revokeSession]
  split
  · rename_i h
    simpa using h
  · rename_i h
    simpa using List.countP_pos_iff.mp (Nat.pos_of_ne_zero h)

theorem revokeSession_of_active {now : Timestamp} {db : Database} {s : SessionRecord}
    (hs : s ∈ db.sessions) (ha : s.Active) :
    revokeSession s.sessionId now db =
      (.ok (), revokeWhere (·.sessionId = s.sessionId) now db) := by
  refine if_neg fun h0 => ?_
  exact List.countP_eq_zero.mp h0 s hs (by simpa using ha)

theorem mem_revokeWhere {p : SessionRecord → Bool} {now : Timestamp} {db : Database}
    {s : SessionRecord} : s ∈ (revokeWhere p now db).sessions ↔
      (s ∈ db.sessions ∧ ¬ (p s ∧ s.Active)) ∨
      ∃ s₀ ∈ db.sessions, p s₀ ∧ s₀.Active ∧ s = s₀.revoke now := by
  rw [revokeWhere, mem_updateWhere]
  constructor
  · rintro ⟨s₀, hs₀, he⟩
    split at he
    · rename_i hp
      simp only [decide_eq_true_eq] at hp
      exact .inr ⟨s₀, hs₀, hp.1, hp.2, he.symm⟩
    · rename_i hp
      simp only [decide_eq_true_eq] at hp
      exact .inl ⟨he ▸ hs₀, he ▸ hp⟩
  · rintro (⟨hs, hp⟩ | ⟨s₀, hs₀, hp, ha, rfl⟩)
    · exact ⟨s, hs, if_neg (by simpa using hp)⟩
    · exact ⟨s₀, hs₀, if_pos (by simp [hp, ha])⟩

theorem mem_revokeWhere_active {p : SessionRecord → Bool} {now : Timestamp} {db : Database}
    {s : SessionRecord} (ha : s.Active) :
    s ∈ (revokeWhere p now db).sessions ↔ s ∈ db.sessions ∧ ¬ p s := by
  rw [mem_revokeWhere]
  constructor
  · rintro (⟨hs, hp⟩ | ⟨s₀, -, -, -, rfl⟩)
    · exact ⟨hs, fun h => hp ⟨h, ha⟩⟩
    · exact absurd ha (by simp)
  · rintro ⟨hs, hp⟩
    exact .inl ⟨hs, fun h => hp h.1⟩

theorem valid_revokeWhere {p : SessionRecord → Bool} {now : Timestamp} {db : Database}
    (h : db.Valid) : (revokeWhere p now db).Valid :=
  { h with
    sessions_pk := h.sessions_pk.updateWhere fun _ => rfl
    sessions_access := h.sessions_access.updateWhere fun _ => rfl
    sessions_refresh := h.sessions_refresh.updateWhere fun _ => rfl
    sessions_user := h.sessions_user.updateWhere fun _ => rfl
    sessions_device := h.sessions_device.updateWhere fun _ => rfl }

end SessionRepository

/-- The calls of the repository, each one atomic. -/
inductive SessionCall
  | createSession (session : SessionRecord)
  | findByAccessToken (accessTokenHash : String)
  | findByRefreshToken (refreshTokenHash : String)
  | revokeSession (sessionId : String) (now : Timestamp)
  | revokeAllForUser (userId : UserId) (now : Timestamp)
  | revokeAllForDevice (userId : UserId) (deviceId : DeviceId) (now : Timestamp)
  | cleanExpired (now : Timestamp)
  | countActiveForUser (userId : UserId) (now : Timestamp)
  deriving DecidableEq, Repr

namespace SessionCall

open SessionRepository

@[reducible] def Reply : SessionCall → Type
  | createSession _ => VoidResult
  | findByAccessToken _ => Option SessionRecord
  | findByRefreshToken _ => Option SessionRecord
  | revokeSession .. => VoidResult
  | revokeAllForUser .. => VoidResult
  | revokeAllForDevice .. => VoidResult
  | cleanExpired _ => ℕ
  | countActiveForUser .. => ℕ

def exec : (c : SessionCall) → Database → c.Reply × Database
  | createSession s, db => SessionRepository.createSession s db
  | findByAccessToken h, db => (SessionRepository.findByAccessToken h db, db)
  | findByRefreshToken h, db => (SessionRepository.findByRefreshToken h db, db)
  | revokeSession i now, db => SessionRepository.revokeSession i now db
  | revokeAllForUser u now, db => SessionRepository.revokeAllForUser u now db
  | revokeAllForDevice u d now, db => SessionRepository.revokeAllForDevice u d now db
  | cleanExpired now, db => SessionRepository.cleanExpired now db
  | countActiveForUser u now, db => (SessionRepository.countActiveForUser u now db, db)

def revokes : SessionCall → SessionRecord → Bool
  | revokeSession i _, s => s.sessionId = i
  | revokeAllForUser u _, s => s.userId = u
  | revokeAllForDevice u d _, s => s.userId = u ∧ s.deviceId = d
  | _, _ => false

inductive Effect (db : Database) : SessionCall → Database → Prop
  | same (c : SessionCall) (hc : ∀ s, ¬ c.revokes s) : Effect db c db
  | create (s : SessionRecord) (db' : Database) (h : insertSession s db = .ok db') :
      Effect db (.createSession s) db'
  | revoke (c : SessionCall) (now : Timestamp) : Effect db c (revokeWhere c.revokes now db)
  | clean (now : Timestamp) :
      Effect db (.cleanExpired now) (SessionRepository.cleanExpired now db).2

theorem exec_effect (c : SessionCall) (db : Database) : Effect db c (c.exec db).2 := by
  cases c with
  | createSession s =>
    simp only [exec, SessionRepository.createSession]
    split
    · exact .create s _ ‹_›
    · exact .same _ (by simp [revokes])
  | findByAccessToken h => exact .same _ (by simp [revokes])
  | findByRefreshToken h => exact .same _ (by simp [revokes])
  | revokeSession i now =>
    rw [exec, revokeSession_snd]
    exact .revoke (.revokeSession i now) now
  | revokeAllForUser u now => exact .revoke _ now
  | revokeAllForDevice u d now => exact .revoke _ now
  | cleanExpired now => exact .clean now
  | countActiveForUser u now => exact .same _ (by simp [revokes])

theorem Effect.frame {c : SessionCall} {db db' : Database} (he : Effect db c db') :
    ∃ rows, db' = { db with sessions := rows } := by
  cases he with
  | same => exact ⟨_, rfl⟩
  | create s _ h => obtain ⟨-, -, -, -, -, rfl⟩ := insertSession_ok h; exact ⟨_, rfl⟩
  | revoke => exact ⟨_, rfl⟩
  | clean => exact ⟨_, rfl⟩

theorem Effect.valid {c : SessionCall} {db db' : Database} (he : Effect db c db') (h : db.Valid) :
    db'.Valid := by
  cases he with
  | same => exact h
  | create s _ hins =>
    obtain ⟨hid, hacc, href, hu, hd, rfl⟩ := insertSession_ok hins
    exact { h with
      sessions_pk := uniqueOn_append_singleton.mpr ⟨h.sessions_pk, hid⟩
      sessions_access := uniqueOn_append_singleton.mpr ⟨h.sessions_access, hacc⟩
      sessions_refresh := uniqueOn_append_singleton.mpr ⟨h.sessions_refresh, href⟩
      sessions_user := h.sessions_user.append_singleton hu
      sessions_device := h.sessions_device.append_singleton hd }
  | revoke => exact valid_revokeWhere h
  | clean =>
    exact { h with
      sessions_pk := h.sessions_pk.deleteWhere
      sessions_access := h.sessions_access.deleteWhere
      sessions_refresh := h.sessions_refresh.deleteWhere
      sessions_user := h.sessions_user.deleteWhere
      sessions_device := h.sessions_device.deleteWhere }

end SessionCall

end VoxServer
