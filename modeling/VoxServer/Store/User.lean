import VoxServer.Sql.Like
import VoxServer.Store.Schema
import VoxServer.Table.Paging

/-! # The user repository

Accounts with their password credentials and the wrapped sync key, which two
separate statements write. Other users see only the public profile.
-/

namespace VoxServer

open Table

structure SyncKeyBundleRecord where
  syncKeyVersion : Int32 := 0
  wrappedSyncKey : String
  syncWrapSalt : String
  syncWrapParams : String
  deriving DecidableEq, Repr

def SyncKeyBundleRecord.Whole (b : SyncKeyBundleRecord) : Prop :=
  b.wrappedSyncKey ≠ "" ∧ b.syncWrapSalt ≠ "" ∧ b.syncWrapParams ≠ ""

instance (b : SyncKeyBundleRecord) : Decidable b.Whole := inferInstanceAs (Decidable (_ ∧ _))

structure UserPublicProfile where
  userId : UserId
  username : String
  deriving DecidableEq, Repr

namespace UserRecord

def bundle (u : UserRecord) : SyncKeyBundleRecord :=
  ⟨u.syncKeyVersion, u.wrappedSyncKey, u.syncWrapSalt, u.syncWrapParams⟩

end UserRecord

namespace UserRepository

/-- Equality under `COLLATE NOCASE`, which folds the case of ASCII letters. -/
def nocaseEq (a b : String) : Bool := a.toList.map Char.toLower = b.toList.map Char.toLower

def usernameTaken : Error := ⟨.alreadyExists, "Username already taken"⟩

/-- `INSERT INTO users`; the statement leaves `disabled_at` out. -/
def insertUser (user : UserRecord) (db : Database) : Except SqliteError Database := do
  let row := { user with disabledAt := none }
  checkUnique "users.user_id" UserRecord.userId row db.users
  checkUnique "users.username" UserRecord.username row db.users
  return { db with users := db.users ++ [row] }

def createUser (user : UserRecord) (db : Database) : VoidResult × Database :=
  if db.users.any fun u => nocaseEq u.username user.username then (.error usernameTaken, db) else
  match insertUser user db with
  | .ok db' => (.ok (), db')
  | .error .full => (.error SqliteError.full.toInternal, db)
  | .error _ => (.error usernameTaken, db)

theorem insertUser_ok {user : UserRecord} {db db' : Database} (h : insertUser user db = .ok db') :
    (∀ u ∈ db.users, u.userId ≠ user.userId) ∧ (∀ u ∈ db.users, u.username ≠ user.username) ∧
    db' = { db with users := db.users ++ [{ user with disabledAt := none }] } := by
  obtain ⟨hid, h⟩ := checkUnique_bind_ok.mp h
  obtain ⟨hname, h⟩ := checkUnique_bind_ok.mp h
  cases h
  exact ⟨hid, hname, rfl⟩

theorem createUser_eq_ok {user : UserRecord} {db : Database}
    (hid : ∀ u ∈ db.users, u.userId ≠ user.userId)
    (hname : ∀ u ∈ db.users, ¬ nocaseEq u.username user.username) :
    createUser user db =
      (.ok (), { db with users := db.users ++ [{ user with disabledAt := none }] }) := by
  have hnames : ¬ db.users.any fun u => nocaseEq u.username user.username := by
    rw [List.any_eq_true]
    rintro ⟨u, hu, he⟩
    exact hname u hu he
  have hins : insertUser user db =
      .ok { db with users := db.users ++ [{ user with disabledAt := none }] } := by
    refine checkUnique_bind_ok.mpr ⟨hid, checkUnique_bind_ok.mpr ⟨?_, rfl⟩⟩
    intro u hu he
    apply hname u hu
    rw [he]
    exact decide_eq_true rfl
  rw [createUser, if_neg hnames, hins]

theorem createUser_cases (user : UserRecord) (db : Database) :
    (∃ e, createUser user db = (.error e, db)) ∨
    (∀ u ∈ db.users, u.userId ≠ user.userId) ∧
      (∀ u ∈ db.users, ¬ nocaseEq u.username user.username) ∧
      createUser user db =
        (.ok (), { db with users := db.users ++ [{ user with disabledAt := none }] }) := by
  unfold createUser
  split
  · exact .inl ⟨_, rfl⟩
  · rename_i hnames
    split
    · rename_i hins
      obtain ⟨hid, -, rfl⟩ := insertUser_ok hins
      refine .inr ⟨hid, fun u hu he => hnames ?_, rfl⟩
      exact List.any_eq_true.mpr ⟨u, hu, he⟩
    · exact .inl ⟨_, rfl⟩
    · exact .inl ⟨_, rfl⟩

def findByUsername (username : String) (db : Database) : Option UserRecord :=
  db.users.find? fun u => nocaseEq u.username username

def findById (userId : UserId) (db : Database) : Option UserRecord :=
  db.users.find? (·.userId = userId)

/-- At most this many different ids are looked up. -/
def kMaxUserIdsInBatch : ℕ := 100

/-- The profiles of the users that are not disabled, in the order of the ids. -/
def findPublicProfilesByIds (ids : List UserId) (db : Database) : List UserPublicProfile :=
  (ids.eraseDups.take kMaxUserIdsInBatch).filterMap fun id =>
    (db.users.find? fun u => u.userId = id ∧ u.disabledAt = none).map fun u =>
      ⟨u.userId, u.username⟩

/-- The search goes by a pattern, so `%` and `_` in the query are wildcards. A pattern that is too
long throws when it comes to the first row; `none` stands for that. -/
def searchByUsernamePrefix (query : String) (limit : UInt64) (db : Database) :
    Option (List UserRecord) :=
  if query = "" then some [] else
  let pattern := query ++ "%"
  if pattern.toList.length > Sql.maxPatternLength ∧ db.users ≠ [] ∧ limit ≠ 0 then none
  else some (applyLimit limit.toInt64.toInt
    ((db.users.filter fun u =>
      Sql.isLike u.username pattern ∧ u.disabledAt = none).insertionSort
        fun u v => u.username ≤ v.username))

def userNotFound : Error := ⟨.notFound, "User not found"⟩

/-- `UPDATE users` on the row of one user. -/
def updateUser (userId : UserId) (f : UserRecord → UserRecord) (db : Database) :
    VoidResult × Database :=
  let db' := { db with users := updateWhere (·.userId = userId) f db.users }
  if db.users.countP (·.userId = userId) = 0 then (.error userNotFound, db') else (.ok (), db')

theorem updateUser_ok {u : UserId} {f : UserRecord → UserRecord} {db : Database}
    (h : ∃ r ∈ db.users, r.userId = u) : (updateUser u f db).1 = .ok () := by
  obtain ⟨r, hr, hu⟩ := h
  have hpos : ¬ db.users.countP (·.userId = u) = 0 :=
    fun h0 => List.countP_eq_zero.mp h0 r hr (by simpa using hu)
  simp only [updateUser, hpos, if_false]

def disableUser (userId : UserId) (now : Timestamp) : Database → VoidResult × Database :=
  updateUser userId fun u => { u with disabledAt := some now }

def getSyncKeyBundle (userId : UserId) (db : Database) : Option SyncKeyBundleRecord :=
  (findById userId db).map UserRecord.bundle

def setSyncKeyBundle (userId : UserId) (bundle : SyncKeyBundleRecord) :
    Database → VoidResult × Database :=
  updateUser userId fun u =>
    { u with
      syncKeyVersion := bundle.syncKeyVersion
      wrappedSyncKey := bundle.wrappedSyncKey
      syncWrapSalt := bundle.syncWrapSalt
      syncWrapParams := bundle.syncWrapParams }

def updatePasswordCredentials (userId : UserId) (passwordSalt passwordVerifier : String) :
    Database → VoidResult × Database :=
  updateUser userId fun u => { u with passwordSalt, passwordVerifier }

end UserRepository

/-- The calls of the repository, each one atomic. -/
inductive UserCall
  | createUser (user : UserRecord)
  | findByUsername (username : String)
  | findById (userId : UserId)
  | findPublicProfilesByIds (ids : List UserId)
  | searchByUsernamePrefix (query : String) (limit : UInt64)
  | disableUser (userId : UserId) (now : Timestamp)
  | getSyncKeyBundle (userId : UserId)
  | setSyncKeyBundle (userId : UserId) (bundle : SyncKeyBundleRecord)
  | updatePasswordCredentials (userId : UserId) (passwordSalt passwordVerifier : String)
  deriving DecidableEq, Repr

namespace UserCall

open UserRepository

@[reducible] def Reply : UserCall → Type
  | createUser _ => VoidResult
  | findByUsername _ => Option UserRecord
  | findById _ => Option UserRecord
  | findPublicProfilesByIds _ => List UserPublicProfile
  | searchByUsernamePrefix .. => Option (List UserRecord)
  | disableUser .. => VoidResult
  | getSyncKeyBundle _ => Option SyncKeyBundleRecord
  | setSyncKeyBundle .. => VoidResult
  | updatePasswordCredentials .. => VoidResult

def exec : (c : UserCall) → Database → c.Reply × Database
  | createUser u, db => UserRepository.createUser u db
  | findByUsername n, db => (UserRepository.findByUsername n db, db)
  | findById u, db => (UserRepository.findById u db, db)
  | findPublicProfilesByIds ids, db => (UserRepository.findPublicProfilesByIds ids db, db)
  | searchByUsernamePrefix q n, db => (UserRepository.searchByUsernamePrefix q n db, db)
  | disableUser u now, db => UserRepository.disableUser u now db
  | getSyncKeyBundle u, db => (UserRepository.getSyncKeyBundle u db, db)
  | setSyncKeyBundle u b, db => UserRepository.setSyncKeyBundle u b db
  | updatePasswordCredentials u s v, db => UserRepository.updatePasswordCredentials u s v db

inductive Effect (db : Database) : UserCall → Database → Prop
  | same (c : UserCall) : Effect db c db
  | create (u : UserRecord) (db' : Database) (h : insertUser u db = .ok db') :
      Effect db (.createUser u) db'
  | update (c : UserCall) (u : UserId) (f : UserRecord → UserRecord)
      (hf : ∀ r, (f r).userId = r.userId ∧ (f r).username = r.username) :
      Effect db c { db with users := updateWhere (·.userId = u) f db.users }

theorem updateUser_snd (u : UserId) (f : UserRecord → UserRecord) (db : Database) :
    (updateUser u f db).2 = { db with users := updateWhere (·.userId = u) f db.users } := by
  unfold updateUser
  split <;> rfl

theorem exec_effect (c : UserCall) (db : Database) : Effect db c (c.exec db).2 := by
  cases c with
  | createUser u =>
    simp only [exec, UserRepository.createUser]
    split
    · exact .same _
    · split
      · exact .create u _ ‹_›
      · exact .same _
      · exact .same _
  | findByUsername n => exact .same _
  | findById u => exact .same _
  | findPublicProfilesByIds ids => exact .same _
  | searchByUsernamePrefix q n => exact .same _
  | disableUser u now =>
    simp only [exec, UserRepository.disableUser, updateUser_snd]
    exact .update _ u _ fun _ => ⟨rfl, rfl⟩
  | getSyncKeyBundle u => exact .same _
  | setSyncKeyBundle u b =>
    simp only [exec, UserRepository.setSyncKeyBundle, updateUser_snd]
    exact .update _ u _ fun _ => ⟨rfl, rfl⟩
  | updatePasswordCredentials u s v =>
    simp only [exec, UserRepository.updatePasswordCredentials, updateUser_snd]
    exact .update _ u _ fun _ => ⟨rfl, rfl⟩

variable {c : UserCall} {db db' : Database}

theorem Effect.frame (he : Effect db c db') : ∃ us, db' = { db with users := us } := by
  cases he with
  | same => exact ⟨_, rfl⟩
  | create u _ h =>
    obtain ⟨-, -, rfl⟩ := insertUser_ok h
    exact ⟨_, rfl⟩
  | update => exact ⟨_, rfl⟩

theorem Effect.userId (he : Effect db c db') {u : UserRecord} (hu : u ∈ db'.users) :
    (∃ r ∈ db.users, r.userId = u.userId) ∨ ∃ r, c = .createUser r ∧ r.userId = u.userId := by
  cases he with
  | same => exact .inl ⟨u, hu, rfl⟩
  | create r _ hins =>
    obtain ⟨-, -, rfl⟩ := insertUser_ok hins
    rcases List.mem_append.mp hu with hu | hu
    · exact .inl ⟨u, hu, rfl⟩
    · rw [List.mem_singleton.mp hu]
      exact .inr ⟨r, rfl, rfl⟩
  | update c i f hf => exact .inl ((exists_key_updateWhere fun r => (hf r).1).mp ⟨u, hu, rfl⟩)

theorem Effect.exists_userId (he : Effect db c db') {u : UserId}
    (hu : ∃ r ∈ db.users, r.userId = u) : ∃ r ∈ db'.users, r.userId = u := by
  cases he with
  | same => exact hu
  | create r _ hins =>
    obtain ⟨-, -, rfl⟩ := insertUser_ok hins
    obtain ⟨r₀, hr₀, hu⟩ := hu
    exact ⟨r₀, List.mem_append_left _ hr₀, hu⟩
  | update c i f hf => exact (exists_key_updateWhere fun r => (hf r).1).mpr hu

inductive Origin (db : Database) : UserCall → UserRecord → Prop
  | kept (c : UserCall) {r : UserRecord} (h : r ∈ db.users) : Origin db c r
  | created (r : UserRecord) (hid : ∀ r₀ ∈ db.users, r₀.userId ≠ r.userId) :
      Origin db (.createUser r) { r with disabledAt := none }
  | disabled {r : UserRecord} (h : r ∈ db.users) (now : Timestamp) :
      Origin db (.disableUser r.userId now) { r with disabledAt := some now }
  | rewrapped {r : UserRecord} (h : r ∈ db.users) (b : SyncKeyBundleRecord) :
      Origin db (.setSyncKeyBundle r.userId b)
        { r with
          syncKeyVersion := b.syncKeyVersion
          wrappedSyncKey := b.wrappedSyncKey
          syncWrapSalt := b.syncWrapSalt
          syncWrapParams := b.syncWrapParams }
  | rehashed {r : UserRecord} (h : r ∈ db.users) (passwordSalt passwordVerifier : String) :
      Origin db (.updatePasswordCredentials r.userId passwordSalt passwordVerifier)
        { r with passwordSalt, passwordVerifier }

theorem of_mem_updateUser {u : UserId} {f : UserRecord → UserRecord} {r : UserRecord}
    (hr : r ∈ (updateUser u f db).2.users) :
    r ∈ db.users ∧ r.userId ≠ u ∨ ∃ r₀ ∈ db.users, r₀.userId = u ∧ r = f r₀ := by
  rw [updateUser_snd] at hr
  obtain ⟨r₀, hr₀, rfl⟩ := mem_updateWhere.mp hr
  by_cases hu : r₀.userId = u
  · exact .inr ⟨r₀, hr₀, hu, if_pos (decide_eq_true hu)⟩
  · rw [if_neg (by simpa using hu)]
    exact .inl ⟨hr₀, hu⟩

theorem origin_of_exec {r : UserRecord} (hr : r ∈ (c.exec db).2.users) : Origin db c r := by
  cases c with
  | createUser n =>
    rcases createUser_cases n db with ⟨e, he⟩ | ⟨hid, -, he⟩
    · simp only [exec, he] at hr
      exact .kept _ hr
    · simp only [exec, he] at hr
      rcases List.mem_append.mp hr with hr | hr
      · exact .kept _ hr
      · rw [List.mem_singleton.mp hr]
        exact .created n hid
  | disableUser u now =>
    rcases of_mem_updateUser hr with ⟨hr, -⟩ | ⟨r₀, hr₀, rfl, rfl⟩
    · exact .kept _ hr
    · exact .disabled hr₀ now
  | setSyncKeyBundle u b =>
    rcases of_mem_updateUser hr with ⟨hr, -⟩ | ⟨r₀, hr₀, rfl, rfl⟩
    · exact .kept _ hr
    · exact .rewrapped hr₀ b
  | updatePasswordCredentials u salt verifier =>
    rcases of_mem_updateUser hr with ⟨hr, -⟩ | ⟨r₀, hr₀, rfl, rfl⟩
    · exact .kept _ hr
    · exact .rehashed hr₀ salt verifier
  | _ => exact .kept _ hr

theorem bundle_of_exec {r : UserRecord} (hr : r ∈ (c.exec db).2.users) :
    (∃ r₀ ∈ db.users, r.userId = r₀.userId ∧ r.bundle = r₀.bundle) ∨
    (∃ r₀, c = .createUser r₀ ∧ r.bundle = r₀.bundle) ∨
      c = .setSyncKeyBundle r.userId r.bundle := by
  cases origin_of_exec hr with
  | kept _ h => exact .inl ⟨r, h, rfl, rfl⟩
  | created r₀ hid => exact .inr (.inl ⟨r₀, rfl, rfl⟩)
  | disabled h now => exact .inl ⟨_, h, rfl, rfl⟩
  | rewrapped h b => exact .inr (.inr rfl)
  | rehashed h salt verifier => exact .inl ⟨_, h, rfl, rfl⟩

theorem Effect.valid (he : Effect db c db') (h : db.Valid) : db'.Valid := by
  cases he with
  | same => exact h
  | create u _ hins =>
    obtain ⟨hid, hname, rfl⟩ := insertUser_ok hins
    exact { h with
      users_pk := uniqueOn_append_singleton.mpr ⟨h.users_pk, hid⟩
      users_username := uniqueOn_append_singleton.mpr ⟨h.users_username, hname⟩
      devices_user := h.devices_user.append_parents _
      sessions_user := h.sessions_user.append_parents _
      conversations_user := h.conversations_user.append_parents _
      members_user := h.members_user.append_parents _
      subscriptions_user := h.subscriptions_user.append_parents _
      attachments_user := h.attachments_user.append_parents _
      sync_user := h.sync_user.append_parents _ }
  | update c u f hf =>
    have hid := fun r => (hf r).1
    exact { h with
      users_pk := h.users_pk.updateWhere hid
      users_username := h.users_username.updateWhere fun r => (hf r).2
      devices_user := h.devices_user.updateWhere_parents hid
      sessions_user := h.sessions_user.updateWhere_parents hid
      conversations_user := h.conversations_user.updateWhere_parents hid
      members_user := h.members_user.updateWhere_parents hid
      subscriptions_user := h.subscriptions_user.updateWhere_parents hid
      attachments_user := h.attachments_user.updateWhere_parents hid
      sync_user := h.sync_user.updateWhere_parents hid }

end UserCall

end VoxServer
