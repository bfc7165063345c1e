import VoxServer.Table.Basic
import VoxServer.Common.Types

/-! # The database schema

One list of rows for each table, in row order, and the primary keys, unique
columns and foreign keys that SQLite enforces.
-/

namespace VoxServer

open Table

structure UserRecord where
  userId : UserId
  username : String
  passwordSalt : String
  passwordVerifier : String
  createdAt : Timestamp
  disabledAt : Option Timestamp := none
  syncKeyVersion : Int32 := 0
  wrappedSyncKey : String
  syncWrapSalt : String
  syncWrapParams : String
  deriving DecidableEq, Inhabited, Repr

structure DeviceRecord where
  deviceId : DeviceId
  userId : UserId
  identityKeyPublic : String
  signedPrekeyPublic : String
  signedPrekeySignature : String
  lastPrekeyRefreshAt : Option Timestamp := none
  clientProtocolVersion : ℤ := 1
  deviceLabel : String
  createdAt : Timestamp := 0
  lastSeenAt : Timestamp := 0
  revokedAt : Option Timestamp := none
  deriving DecidableEq, Inhabited, Repr

/-- A row of `one_time_prekeys`. -/
structure PrekeyRow where
  prekeyId : String
  userId : UserId
  deviceId : DeviceId
  prekeyPublic : String
  consumedAt : Option Timestamp := none
  deriving DecidableEq, Inhabited, Repr

structure SessionRecord where
  sessionId : String
  userId : UserId
  deviceId : DeviceId
  accessTokenHash : String
  refreshTokenHash : String
  accessExpiresAt : Timestamp
  refreshExpiresAt : Timestamp
  createdAt : Timestamp
  revokedAt : Option Timestamp := none
  deriving DecidableEq, Inhabited, Repr

structure ConversationRecord where
  conversationId : ConversationId
  type : ConversationType
  createdBy : UserId
  createdAt : Timestamp
  policyBlob : String := ""
  membershipVersion : ℤ := 0
  deriving DecidableEq, Inhabited, Repr

structure MemberRecord where
  conversationId : ConversationId
  userId : UserId
  role : MemberRole
  addedAt : Timestamp
  removedAt : Option Timestamp := none
  deriving DecidableEq, Inhabited, Repr

/-- A row of `channel_subscriptions`. -/
structure SubscriptionRow where
  conversationId : ConversationId
  userId : UserId
  subscribedAt : Timestamp
  unsubscribedAt : Option Timestamp := none
  deriving DecidableEq, Inhabited, Repr

structure EnvelopeRecord where
  envelopeId : EnvelopeId
  conversationId : ConversationId
  senderUserId : UserId
  senderDeviceId : DeviceId
  ciphertext : String
  serverTimestamp : Timestamp
  envelopeType : ℤ := 0
  retentionUntil : Option Timestamp := none
  orderingEpoch : Option ℤ := none
  deriving DecidableEq, Inhabited, Repr

structure DeliveryStateRecord where
  envelopeId : EnvelopeId
  targetUserId : UserId
  targetDeviceId : DeviceId
  queuedAt : Timestamp
  deliveredAt : Option Timestamp := none
  ackedAt : Option Timestamp := none
  deriving DecidableEq, Inhabited, Repr

structure AttachmentRecord where
  attachmentId : AttachmentId
  userId : UserId
  conversationId : ConversationId
  fileSize : ℤ
  mimeHint : String
  ciphertextHash : String
  blobPath : String
  uploadComplete : Bool := false
  createdAt : Timestamp
  retentionUntil : Option Timestamp := none
  deriving DecidableEq, Inhabited, Repr

/-- A row of `sync_records`. -/
structure SyncRow where
  id : ℤ
  userId : UserId
  collection : String
  recordId : String
  ciphertext : String
  contentHash : String
  version : Int32
  deleted : Bool := false
  serverUpdatedAt : Timestamp
  deriving DecidableEq, Inhabited, Repr

structure Database where
  users : List UserRecord := []
  devices : List DeviceRecord := []
  oneTimePrekeys : List PrekeyRow := []
  sessions : List SessionRecord := []
  conversations : List ConversationRecord := []
  conversationMembers : List MemberRecord := []
  channelSubscriptions : List SubscriptionRow := []
  encryptedEnvelopes : List EnvelopeRecord := []
  deliveryState : List DeliveryStateRecord := []
  attachmentMetadata : List AttachmentRecord := []
  syncRecords : List SyncRow := []
  /-- The last id that `AUTOINCREMENT` gave out for `sync_records`. -/
  syncSequence : ℤ := 0
  deriving DecidableEq, Inhabited, Repr

namespace DeviceRecord

/-- The primary key of `devices`. -/
def key (d : DeviceRecord) : UserId × DeviceId := (d.userId, d.deviceId)

end DeviceRecord

namespace MemberRecord

/-- The primary key of `conversation_members`. -/
def key (m : MemberRecord) : ConversationId × UserId := (m.conversationId, m.userId)

end MemberRecord

namespace SubscriptionRow

/-- The primary key of `channel_subscriptions`. -/
def key (s : SubscriptionRow) : ConversationId × UserId := (s.conversationId, s.userId)

end SubscriptionRow

namespace DeliveryStateRecord

/-- The primary key of `delivery_state`. -/
def key (d : DeliveryStateRecord) : EnvelopeId × UserId × DeviceId :=
  (d.envelopeId, d.targetUserId, d.targetDeviceId)

end DeliveryStateRecord

namespace SyncRow

/-- The unique columns of `sync_records`. -/
def key (r : SyncRow) : UserId × String × String := (r.userId, r.collection, r.recordId)

end SyncRow

namespace Database

/-- The keys and references that the schema declares. -/
@[mk_iff]
structure Valid (db : Database) : Prop where
  users_pk : UniqueOn UserRecord.userId db.users
  users_username : UniqueOn UserRecord.username db.users
  devices_pk : UniqueOn DeviceRecord.key db.devices
  prekeys_pk : UniqueOn PrekeyRow.prekeyId db.oneTimePrekeys
  sessions_pk : UniqueOn SessionRecord.sessionId db.sessions
  sessions_access : UniqueOn SessionRecord.accessTokenHash db.sessions
  sessions_refresh : UniqueOn SessionRecord.refreshTokenHash db.sessions
  conversations_pk : UniqueOn ConversationRecord.conversationId db.conversations
  members_pk : UniqueOn MemberRecord.key db.conversationMembers
  subscriptions_pk : UniqueOn SubscriptionRow.key db.channelSubscriptions
  envelopes_pk : UniqueOn EnvelopeRecord.envelopeId db.encryptedEnvelopes
  delivery_pk : UniqueOn DeliveryStateRecord.key db.deliveryState
  attachments_pk : UniqueOn AttachmentRecord.attachmentId db.attachmentMetadata
  sync_pk : UniqueOn SyncRow.id db.syncRecords
  sync_key : UniqueOn SyncRow.key db.syncRecords
  sync_sequence : ∀ r ∈ db.syncRecords, 0 < r.id ∧ r.id ≤ db.syncSequence
  sync_range : 0 ≤ db.syncSequence ∧ db.syncSequence < 2 ^ 63
  devices_user : References DeviceRecord.userId UserRecord.userId db.devices db.users
  prekeys_device : References (fun p => (p.userId, p.deviceId)) DeviceRecord.key
    db.oneTimePrekeys db.devices
  sessions_user : References SessionRecord.userId UserRecord.userId db.sessions db.users
  sessions_device : References (fun s => (s.userId, s.deviceId)) DeviceRecord.key
    db.sessions db.devices
  conversations_user : References ConversationRecord.createdBy UserRecord.userId
    db.conversations db.users
  members_conversation : References MemberRecord.conversationId ConversationRecord.conversationId
    db.conversationMembers db.conversations
  members_user : References MemberRecord.userId UserRecord.userId db.conversationMembers db.users
  subscriptions_conversation : References SubscriptionRow.conversationId
    ConversationRecord.conversationId db.channelSubscriptions db.conversations
  subscriptions_user : References SubscriptionRow.userId UserRecord.userId
    db.channelSubscriptions db.users
  envelopes_conversation : References EnvelopeRecord.conversationId
    ConversationRecord.conversationId db.encryptedEnvelopes db.conversations
  envelopes_sender : References (fun e => (e.senderUserId, e.senderDeviceId)) DeviceRecord.key
    db.encryptedEnvelopes db.devices
  delivery_envelope : References DeliveryStateRecord.envelopeId EnvelopeRecord.envelopeId
    db.deliveryState db.encryptedEnvelopes
  delivery_device : References (fun d => (d.targetUserId, d.targetDeviceId)) DeviceRecord.key
    db.deliveryState db.devices
  attachments_user : References AttachmentRecord.userId UserRecord.userId
    db.attachmentMetadata db.users
  attachments_conversation : References AttachmentRecord.conversationId
    ConversationRecord.conversationId db.attachmentMetadata db.conversations
  sync_user : References SyncRow.userId UserRecord.userId db.syncRecords db.users

set_option synthInstance.maxSize 1024 in
instance (db : Database) : Decidable db.Valid := decidable_of_iff' _ (valid_iff db)

end Database

/-- Why a statement failed: a violated constraint (code `SQLITE_CONSTRAINT`), or no row id left. -/
inductive SqliteError
  | unique (columns : String)
  | foreignKey
  | full
  deriving DecidableEq, Inhabited, Repr

namespace SqliteError

def what : SqliteError → String
  | unique columns => "UNIQUE constraint failed: " ++ columns
  | foreignKey => "FOREIGN KEY constraint failed"
  | full => "database or disk is full"

/-- How most repositories report an exception. -/
def toInternal (e : SqliteError) : Error := ⟨.internal, e.what⟩

end SqliteError

section Statements

variable {ρ κ α : Type} [DecidableEq κ]

/-- The uniqueness check of an `INSERT` of `row`. -/
def checkUnique (columns : String) (key : ρ → κ) (row : ρ) (rows : List ρ) :
    Except SqliteError Unit :=
  if ∃ r ∈ rows, key r = key row then .error (.unique columns) else .ok ()

def checkReference {π : Type} (pk : π → κ) (k : κ) (parents : List π) : Except SqliteError Unit :=
  if ∃ q ∈ parents, pk q = k then .ok () else .error .foreignKey

/-- The check, after a `DELETE` on the parent table, that no child row lost its parent. -/
def checkReferences {π : Type} (fk : ρ → κ) (pk : π → κ) (rows : List ρ) (parents : List π) :
    Except SqliteError Unit :=
  if ∀ r ∈ rows, ∃ q ∈ parents, pk q = fk r then .ok () else .error .foreignKey

theorem checkUnique_bind_ok {columns : String} {key : ρ → κ} {row : ρ} {rows : List ρ}
    {f : Unit → Except SqliteError α} {a : α} :
    (checkUnique columns key row rows >>= f) = .ok a ↔
      (∀ r ∈ rows, key r ≠ key row) ∧ f () = .ok a := by
  unfold checkUnique
  split
  · rename_i h
    obtain ⟨r, hr, he⟩ := h
    exact ⟨nofun, fun h => absurd he (h.1 r hr)⟩
  · rename_i h
    exact ⟨fun hf => ⟨fun r hr he => h ⟨r, hr, he⟩, hf⟩, fun h => h.2⟩

theorem checkReference_bind_ok {π : Type} {pk : π → κ} {k : κ} {parents : List π}
    {f : Unit → Except SqliteError α} {a : α} :
    (checkReference pk k parents >>= f) = .ok a ↔ (∃ q ∈ parents, pk q = k) ∧ f () = .ok a := by
  unfold checkReference
  split
  · rename_i h
    exact ⟨fun hf => ⟨h, hf⟩, fun h => h.2⟩
  · rename_i h
    exact ⟨nofun, fun h' => absurd h'.1 h⟩

theorem checkReferences_bind_ok {π : Type} {fk : ρ → κ} {pk : π → κ} {rows : List ρ}
    {parents : List π} {f : Unit → Except SqliteError α} {a : α} :
    (checkReferences fk pk rows parents >>= f) = .ok a ↔
      References fk pk rows parents ∧ f () = .ok a := by
  unfold checkReferences References
  split
  · rename_i h
    exact ⟨fun hf => ⟨h, hf⟩, fun h => h.2⟩
  · rename_i h
    exact ⟨nofun, fun h' => absurd h'.1 h⟩

end Statements

end VoxServer
