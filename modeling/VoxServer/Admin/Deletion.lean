import VoxServer.Store.Conversation
import VoxServer.Store.User

/-! # The admin service

The statistics count rows. Deleting a user is one transaction that deletes everything the
user owns. Conversations that the user created and sync records stay, so their foreign keys
can make the last statement fail, and then nothing is deleted.
-/

namespace VoxServer

open Table

structure ServerStats where
  userCount : ℕ
  deviceCount : ℕ
  activeSessionCount : ℕ
  conversationCount : ℕ
  pendingEnvelopeCount : ℕ
  totalStorageBytes : ℤ
  deriving DecidableEq, Repr

namespace AdminService

def getServerStats (now : Timestamp) (db : Database) : ServerStats where
  userCount := db.users.length
  deviceCount := db.devices.length
  activeSessionCount :=
    db.sessions.countP fun s => s.revokedAt = none ∧ s.accessExpiresAt > now
  conversationCount := db.conversations.length
  pendingEnvelopeCount :=
    db.deliveryState.countP fun d => d.deliveredAt = none ∧ d.ackedAt = none
  totalStorageBytes :=
    ((db.attachmentMetadata.filter (·.uploadComplete)).map (·.fileSize)).sum

/-- The statements of the transaction, for a user id without quotes. -/
def deleteUserRows (userId : UserId) (db : Database) : Except SqliteError Database := do
  let sent := (db.encryptedEnvelopes.filter (·.senderUserId = userId)).map (·.envelopeId)
  let deliveryState :=
    deleteWhere (·.envelopeId ∈ sent) (deleteWhere (·.targetUserId = userId) db.deliveryState)
  let encryptedEnvelopes := deleteWhere (·.senderUserId = userId) db.encryptedEnvelopes
  checkReferences DeliveryStateRecord.envelopeId EnvelopeRecord.envelopeId
    deliveryState encryptedEnvelopes
  let attachmentMetadata := deleteWhere (·.userId = userId) db.attachmentMetadata
  let channelSubscriptions := deleteWhere (·.userId = userId) db.channelSubscriptions
  let conversationMembers := deleteWhere (·.userId = userId) db.conversationMembers
  let sessions := deleteWhere (·.userId = userId) db.sessions
  let oneTimePrekeys := deleteWhere (·.userId = userId) db.oneTimePrekeys
  let devices := deleteWhere (·.userId = userId) db.devices
  checkReferences (fun p => (p.userId, p.deviceId)) DeviceRecord.key oneTimePrekeys devices
  checkReferences (fun s => (s.userId, s.deviceId)) DeviceRecord.key sessions devices
  checkReferences (fun e => (e.senderUserId, e.senderDeviceId)) DeviceRecord.key
    encryptedEnvelopes devices
  checkReferences (fun d => (d.targetUserId, d.targetDeviceId)) DeviceRecord.key
    deliveryState devices
  let users := deleteWhere (·.userId = userId) db.users
  checkReferences DeviceRecord.userId UserRecord.userId devices users
  checkReferences SessionRecord.userId UserRecord.userId sessions users
  checkReferences ConversationRecord.createdBy UserRecord.userId db.conversations users
  checkReferences MemberRecord.userId UserRecord.userId conversationMembers users
  checkReferences SubscriptionRow.userId UserRecord.userId channelSubscriptions users
  checkReferences AttachmentRecord.userId UserRecord.userId attachmentMetadata users
  checkReferences SyncRow.userId UserRecord.userId db.syncRecords users
  return { db with
    deliveryState, encryptedEnvelopes, attachmentMetadata, channelSubscriptions
    conversationMembers, sessions, oneTimePrekeys, devices, users }

def withoutUser (userId : UserId) (db : Database) : Database :=
  let sent := (db.encryptedEnvelopes.filter (·.senderUserId = userId)).map (·.envelopeId)
  { db with
    deliveryState :=
      deleteWhere (·.envelopeId ∈ sent) (deleteWhere (·.targetUserId = userId) db.deliveryState)
    encryptedEnvelopes := deleteWhere (·.senderUserId = userId) db.encryptedEnvelopes
    attachmentMetadata := deleteWhere (·.userId = userId) db.attachmentMetadata
    channelSubscriptions := deleteWhere (·.userId = userId) db.channelSubscriptions
    conversationMembers := deleteWhere (·.userId = userId) db.conversationMembers
    sessions := deleteWhere (·.userId = userId) db.sessions
    oneTimePrekeys := deleteWhere (·.userId = userId) db.oneTimePrekeys
    devices := deleteWhere (·.userId = userId) db.devices
    users := deleteWhere (·.userId = userId) db.users }

theorem deleteUserRows_ok {u : UserId} {db db' : Database} (h : deleteUserRows u db = .ok db') :
    db' = withoutUser u db ∧ (db.Valid → db'.Valid) := by
  obtain ⟨h₁, h⟩ := checkReferences_bind_ok.mp h
  obtain ⟨h₂, h⟩ := checkReferences_bind_ok.mp h
  obtain ⟨h₃, h⟩ := checkReferences_bind_ok.mp h
  obtain ⟨h₄, h⟩ := checkReferences_bind_ok.mp h
  obtain ⟨h₅, h⟩ := checkReferences_bind_ok.mp h
  obtain ⟨h₆, h⟩ := checkReferences_bind_ok.mp h
  obtain ⟨h₇, h⟩ := checkReferences_bind_ok.mp h
  obtain ⟨h₈, h⟩ := checkReferences_bind_ok.mp h
  obtain ⟨h₉, h⟩ := checkReferences_bind_ok.mp h
  obtain ⟨h₁₀, h⟩ := checkReferences_bind_ok.mp h
  obtain ⟨h₁₁, h⟩ := checkReferences_bind_ok.mp h
  obtain ⟨h₁₂, h⟩ := checkReferences_bind_ok.mp h
  cases h
  refine ⟨rfl, fun hv => { hv with
    users_pk := hv.users_pk.deleteWhere
    users_username := hv.users_username.deleteWhere
    devices_pk := hv.devices_pk.deleteWhere
    prekeys_pk := hv.prekeys_pk.deleteWhere
    sessions_pk := hv.sessions_pk.deleteWhere
    sessions_access := hv.sessions_access.deleteWhere
    sessions_refresh := hv.sessions_refresh.deleteWhere
    members_pk := hv.members_pk.deleteWhere
    subscriptions_pk := hv.subscriptions_pk.deleteWhere
    envelopes_pk := hv.envelopes_pk.deleteWhere
    delivery_pk := hv.delivery_pk.deleteWhere.deleteWhere
    attachments_pk := hv.attachments_pk.deleteWhere
    members_conversation := hv.members_conversation.deleteWhere
    subscriptions_conversation := hv.subscriptions_conversation.deleteWhere
    envelopes_conversation := hv.envelopes_conversation.deleteWhere
    attachments_conversation := hv.attachments_conversation.deleteWhere
    delivery_envelope := h₁
    prekeys_device := h₂
    sessions_device := h₃
    envelopes_sender := h₄
    delivery_device := h₅
    devices_user := h₆
    sessions_user := h₇
    conversations_user := h₈
    members_user := h₉
    subscriptions_user := h₁₀
    attachments_user := h₁₁
    sync_user := h₁₂ }⟩

theorem not_isUserInConversation_withoutUser (c : ConversationId) (u : UserId) (db : Database) :
    ¬ ConversationRepository.isUserInConversation c u (withoutUser u db) := by
  intro h
  unfold ConversationRepository.isUserInConversation at h
  split at h
  · cases h
  · split at h
    · simp only [List.any_eq_true, decide_eq_true_eq] at h
      obtain ⟨r, hr, hk, -⟩ := h
      exact (mem_deleteWhere.mp hr).2 (decide_eq_true (congrArg Prod.snd hk))
    · simp only [List.any_eq_true, decide_eq_true_eq] at h
      obtain ⟨r, hr, hk, -⟩ := h
      exact (mem_deleteWhere.mp hr).2 (decide_eq_true (congrArg Prod.snd hk))

/-- A delivery state stays unless it is for the deleted user or its envelope was sent by them. -/
theorem row_withoutUser {u : UserId} {db : Database} (hv : db.Valid) {r : DeliveryStateRecord}
    (h : r ∈ db.deliveryState) :
    r ∈ (withoutUser u db).deliveryState ∨ r.targetUserId = u ∨
      ∀ e ∈ (withoutUser u db).encryptedEnvelopes, e.envelopeId ≠ r.envelopeId := by
  by_cases hu : r.targetUserId = u
  · exact .inr (.inl hu)
  by_cases hx : ∃ e ∈ db.encryptedEnvelopes, e.senderUserId = u ∧ e.envelopeId = r.envelopeId
  · obtain ⟨e, he, hsent, hid⟩ := hx
    refine .inr (.inr fun e' he' hid' => ?_)
    obtain ⟨he', hn⟩ := mem_deleteWhere.mp he'
    rw [hv.envelopes_pk.eq_of_mem he' he (hid'.trans hid.symm)] at hn
    exact hn (decide_eq_true hsent)
  · refine .inl (mem_deleteWhere.mpr ⟨mem_deleteWhere.mpr ⟨h, by simpa using hu⟩, ?_⟩)
    simp only [List.mem_map, List.mem_filter, decide_eq_true_eq]
    rintro ⟨e, ⟨he, hsent⟩, hid⟩
    exact hx ⟨e, he, hsent, hid⟩

end AdminService

/-- The transaction of `DeleteUser`, one atomic step under the write lock. -/
inductive AdminCall
  | deleteUserRows (userId : UserId)
  deriving DecidableEq, Repr

namespace AdminCall

@[reducible] def Reply : AdminCall → Type
  | deleteUserRows _ => VoidResult

def exec : (c : AdminCall) → Database → c.Reply × Database
  | deleteUserRows u, db =>
    match AdminService.deleteUserRows u db with
    | .ok db' => (.ok (), db')
    | .error e => (.error e.toInternal, db)

theorem exec_cases (u : UserId) (db : Database) :
    (exec (deleteUserRows u) db).2 = db ∨
      (exec (deleteUserRows u) db).2 = AdminService.withoutUser u db := by
  simp only [exec]
  split
  · exact .inr (AdminService.deleteUserRows_ok ‹_›).1
  · exact .inl rfl

theorem exec_valid (c : AdminCall) {db : Database} (h : db.Valid) : (c.exec db).2.Valid := by
  cases c with
  | deleteUserRows u =>
    simp only [exec]
    split
    · exact (AdminService.deleteUserRows_ok ‹_›).2 h
    · exact h

end AdminCall

end VoxServer
