import VoxServer.Server.Call

/-! # The attachment service

An upload is announced with its size, written in chunks and finalized. The quota
is checked when the upload is announced, against the uploads that are complete.
Chunks and the final hash are taken from whoever knows the attachment id.
-/

namespace VoxServer

open Interleaving

structure InitUploadResponse where
  attachmentId : AttachmentId
  blobPath : String
  deriving DecidableEq, Repr

namespace AttachmentService

variable (cfg : ServerConfig)

/-- The file of an upload. A directory that has no file name takes no separator. -/
def blobPathOf (attachmentId : AttachmentId) : String :=
  (if cfg.blobStoragePath.toList.getLast?.all (· = '/') then cfg.blobStoragePath
    else cfg.blobStoragePath ++ "/") ++ (attachmentId ++ ".blob")

def newAttachment (userId : UserId) (conversationId : ConversationId) (fileSize : ℤ)
    (mimeHint uuid : String) (now : Timestamp) : AttachmentRecord :=
  { attachmentId := uuid, userId, conversationId, fileSize, mimeHint, ciphertextHash := ""
    blobPath := blobPathOf cfg uuid, createdAt := now
    retentionUntil := if cfg.attachmentRetentionSeconds > 0 then
      some (toInt64 (now + cfg.attachmentRetentionSeconds)) else none }

/-- The limits are unsigned and are compared as signed numbers. -/
def initUpload (userId : UserId) (conversationId : ConversationId) (fileSize : ℤ)
    (mimeHint uuid : String) : ServerProg (Result InitUploadResponse) := do
  if fileSize ≤ 0 then
    return .error ⟨.invalidArgument, "File size must be positive"⟩
  if fileSize > toInt64 cfg.maxUploadSizeBytes then
    return .error ⟨.quotaExceeded, "File exceeds maximum upload size"⟩
  let used ← ask (.attachments (.getStorageUsedByUser userId))
  if toInt64 (used + fileSize) > toInt64 cfg.maxStoragePerUserBytes then
    return .error ⟨.quotaExceeded, "User storage quota exceeded"⟩
  if !(← ask (.conversations (.isUserInConversation conversationId userId))) then
    return .error ⟨.forbidden, "User is not a member of this conversation"⟩
  let now ← ask .now
  let record := newAttachment cfg userId conversationId fileSize mimeHint uuid now
  match ← ask (.attachments (.createAttachmentMeta record)) with
  | .error e => return .error e
  | .ok () => return .ok ⟨uuid, blobPathOf cfg uuid⟩

def writeChunk (attachmentId : AttachmentId) (offset : ℤ) (data : String) :
    ServerProg VoidResult := do
  let some a ← ask (.attachments (.getAttachmentMeta attachmentId))
    | return .error ⟨.notFound, "Attachment not found"⟩
  if a.uploadComplete then
    return .error ⟨.invalidArgument, "Upload already complete"⟩
  if !(← ask (.blobs (.write a.blobPath offset data))) then
    return .error ⟨.internal, "Failed to write chunk"⟩
  return .ok ()

def finalizeUpload (attachmentId : AttachmentId) (ciphertextHash : String) :
    ServerProg VoidResult := do
  let some a ← ask (.attachments (.getAttachmentMeta attachmentId))
    | return .error ⟨.notFound, "Attachment not found"⟩
  if a.uploadComplete then
    return .error ⟨.invalidArgument, "Upload already finalized"⟩
  if !(← ask (.blobs (.fileExists a.blobPath))) then
    return .error ⟨.internal, "Blob file not found on disk"⟩
  ask (.attachments (.markUploadComplete attachmentId ciphertextHash))

def getAttachment (attachmentId : AttachmentId) (userId : UserId) :
    ServerProg (Result String) := do
  let some a ← ask (.attachments (.getAttachmentMeta attachmentId))
    | return .error ⟨.notFound, "Attachment not found"⟩
  if !a.uploadComplete then
    return .error ⟨.notFound, "Attachment upload not complete"⟩
  if !(← ask (.conversations (.isUserInConversation a.conversationId userId))) then
    return .error ⟨.forbidden, "Not authorized to access this attachment"⟩
  return .ok a.blobPath

/-- The loop of `deleteExpired` over the files; a failure is only logged. -/
def removeBlobs : List AttachmentRecord → ServerProg Unit
  | [] => return ()
  | a :: as => do
    ask (.blobs (.remove a.blobPath))
    removeBlobs as

def deleteExpired : ServerProg ℕ := do
  let now ← ask .now
  let expired ← ask (.attachments (.getExpired now))
  removeBlobs expired
  ask (.attachments (.deleteExpired now))

end AttachmentService

end VoxServer
