import VoxServer.Store.Schema

/-! # The attachment repository

The metadata of uploads. A row is created incomplete, with the size that the
upload announces, and is completed once with the hash of the ciphertext. Only
complete rows count towards the storage of a user.
-/

namespace VoxServer

open Table

namespace AttachmentRepository

/-- `INSERT INTO attachment_metadata`; the upload is not complete and has no hash. -/
def insertAttachment (record : AttachmentRecord) (db : Database) :
    Except SqliteError Database := do
  let row := { record with uploadComplete := false, ciphertextHash := "" }
  checkUnique "attachment_metadata.attachment_id" AttachmentRecord.attachmentId row
    db.attachmentMetadata
  checkReference UserRecord.userId row.userId db.users
  checkReference ConversationRecord.conversationId row.conversationId db.conversations
  return { db with attachmentMetadata := db.attachmentMetadata ++ [row] }

def createAttachmentMeta (record : AttachmentRecord) (db : Database) : VoidResult × Database :=
  match insertAttachment record db with
  | .ok db' => (.ok (), db')
  | .error e => (.error e.toInternal, db)

def getAttachmentMeta (attachmentId : AttachmentId) (db : Database) : Option AttachmentRecord :=
  db.attachmentMetadata.find? (·.attachmentId = attachmentId)

/-- The row after `UPDATE attachment_metadata SET upload_complete = 1, ciphertext_hash = ?`. -/
def completed (ciphertextHash : String) (a : AttachmentRecord) : AttachmentRecord :=
  { a with uploadComplete := true, ciphertextHash }

def markUploadComplete (attachmentId : AttachmentId) (ciphertextHash : String) (db : Database) :
    VoidResult × Database :=
  let p := fun a : AttachmentRecord => decide (a.attachmentId = attachmentId)
  let db' := { db with
    attachmentMetadata := updateWhere p (completed ciphertextHash) db.attachmentMetadata }
  if db.attachmentMetadata.countP p = 0 then (.error ⟨.notFound, "Attachment not found"⟩, db')
  else (.ok (), db')

/-- `SUM(file_size)` over the complete uploads of the user. -/
def getStorageUsedByUser (userId : UserId) (db : Database) : ℤ :=
  ((db.attachmentMetadata.filter fun a => a.userId = userId ∧ a.uploadComplete).map
    (·.fileSize)).sum

/-- The condition `retention_until IS NOT NULL AND retention_until < now`. -/
def expired (now : Timestamp) (a : AttachmentRecord) : Bool := a.retentionUntil.any (· < now)

/-- The records of the expired rows, without the columns that the code does not read. -/
def getExpired (now : Timestamp) (db : Database) : List AttachmentRecord :=
  (db.attachmentMetadata.filter (expired now)).map fun a =>
    { a with mimeHint := "", ciphertextHash := "", retentionUntil := none }

def deleteExpired (now : Timestamp) (db : Database) : ℕ × Database :=
  (db.attachmentMetadata.countP (expired now),
    { db with attachmentMetadata := deleteWhere (expired now) db.attachmentMetadata })

variable {r : AttachmentRecord} {db db' : Database}

theorem insertAttachment_ok (h : insertAttachment r db = .ok db') :
    (∀ a ∈ db.attachmentMetadata, a.attachmentId ≠ r.attachmentId) ∧
      (∃ u ∈ db.users, u.userId = r.userId) ∧
      (∃ c ∈ db.conversations, c.conversationId = r.conversationId) ∧
      db' = { db with attachmentMetadata :=
        db.attachmentMetadata ++ [{ r with uploadComplete := false, ciphertextHash := "" }] } := by
  obtain ⟨hnew, h⟩ := checkUnique_bind_ok.mp h
  obtain ⟨hu, h⟩ := checkReference_bind_ok.mp h
  obtain ⟨hc, h⟩ := checkReference_bind_ok.mp h
  cases h
  exact ⟨hnew, hu, hc, rfl⟩

theorem markUploadComplete_snd (i : AttachmentId) (hash : String) (db : Database) :
    (markUploadComplete i hash db).2 = { db with
      attachmentMetadata := updateWhere (·.attachmentId = i) (completed hash)
        db.attachmentMetadata } := by
  unfold markUploadComplete
  dsimp only
  split <;> rfl

end AttachmentRepository

/-- The calls of the repository, each one atomic. -/
inductive AttachmentCall
  | createAttachmentMeta (record : AttachmentRecord)
  | getAttachmentMeta (attachmentId : AttachmentId)
  | markUploadComplete (attachmentId : AttachmentId) (ciphertextHash : String)
  | getStorageUsedByUser (userId : UserId)
  | getExpired (now : Timestamp)
  | deleteExpired (now : Timestamp)
  deriving DecidableEq, Repr

namespace AttachmentCall

open AttachmentRepository

@[reducible] def Reply : AttachmentCall → Type
  | createAttachmentMeta _ => VoidResult
  | getAttachmentMeta _ => Option AttachmentRecord
  | markUploadComplete .. => VoidResult
  | getStorageUsedByUser _ => ℤ
  | getExpired _ => List AttachmentRecord
  | deleteExpired _ => ℕ

def exec : (c : AttachmentCall) → Database → c.Reply × Database
  | createAttachmentMeta r, db => AttachmentRepository.createAttachmentMeta r db
  | getAttachmentMeta i, db => (AttachmentRepository.getAttachmentMeta i db, db)
  | markUploadComplete i h, db => AttachmentRepository.markUploadComplete i h db
  | getStorageUsedByUser u, db => (AttachmentRepository.getStorageUsedByUser u db, db)
  | getExpired now, db => (AttachmentRepository.getExpired now db, db)
  | deleteExpired now, db => AttachmentRepository.deleteExpired now db

inductive Effect (db : Database) : AttachmentCall → Database → Prop
  | same (c : AttachmentCall) : Effect db c db
  | create (r : AttachmentRecord) (db' : Database) (h : insertAttachment r db = .ok db') :
      Effect db (.createAttachmentMeta r) db'
  | complete (i : AttachmentId) (hash : String) :
      Effect db (.markUploadComplete i hash) { db with
        attachmentMetadata := updateWhere (·.attachmentId = i) (completed hash)
          db.attachmentMetadata }
  | expire (now : Timestamp) : Effect db (.deleteExpired now)
      { db with attachmentMetadata := deleteWhere (expired now) db.attachmentMetadata }

theorem exec_effect (c : AttachmentCall) (db : Database) : Effect db c (c.exec db).2 := by
  cases c with
  | createAttachmentMeta r =>
    simp only [exec, AttachmentRepository.createAttachmentMeta]
    split
    · exact .create r _ ‹_›
    · exact .same _
  | getAttachmentMeta i => exact .same _
  | markUploadComplete i hash =>
    rw [exec, markUploadComplete_snd]
    exact .complete i hash
  | getStorageUsedByUser u => exact .same _
  | getExpired now => exact .same _
  | deleteExpired now => exact .expire now

variable {c : AttachmentCall} {db db' : Database}

theorem Effect.frame (he : Effect db c db') :
    ∃ as, db' = { db with attachmentMetadata := as } := by
  cases he with
  | same => exact ⟨_, rfl⟩
  | create r _ h => obtain ⟨-, -, -, rfl⟩ := insertAttachment_ok h; exact ⟨_, rfl⟩
  | complete => exact ⟨_, rfl⟩
  | expire => exact ⟨_, rfl⟩

theorem Effect.valid (he : Effect db c db') (h : db.Valid) : db'.Valid := by
  cases he with
  | same => exact h
  | create r _ hins =>
    obtain ⟨hid, hu, hc, rfl⟩ := insertAttachment_ok hins
    exact { h with
      attachments_pk := uniqueOn_append_singleton.mpr ⟨h.attachments_pk, hid⟩
      attachments_user := h.attachments_user.append_singleton hu
      attachments_conversation := h.attachments_conversation.append_singleton hc }
  | complete i hash =>
    exact { h with
      attachments_pk := h.attachments_pk.updateWhere fun _ => rfl
      attachments_user := h.attachments_user.updateWhere fun _ => rfl
      attachments_conversation := h.attachments_conversation.updateWhere fun _ => rfl }
  | expire now =>
    exact { h with
      attachments_pk := h.attachments_pk.deleteWhere
      attachments_user := h.attachments_user.deleteWhere
      attachments_conversation := h.attachments_conversation.deleteWhere }

end AttachmentCall

end VoxServer
