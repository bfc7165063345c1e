import VoxServer.Interleaving.History
import VoxServer.Auth.AuthService
import VoxServer.Relay.RelayService
import VoxServer.Relay.ConversationService
import VoxServer.Attachments.AttachmentService
import VoxServer.Net.Handlers

/-! # The server as a system of interleaved operations

Requests run concurrently against one server; each repository, queue or registry
call is one step. The clock is set from outside.
-/

namespace VoxServer

open Interleaving

/-- The operations of the server. Random values are inputs, and an operation may be a single
call. -/
inductive Op
  | single (c : Call)
  | register (request : RegisterRequest) (salt : Option String) (userUuid deviceUuid : String)
      (fresh : FreshTokens)
  | login (request : LoginRequest) (deviceUuid : String) (fresh : FreshTokens)
  | logout (sessionId : String)
  | logoutWithAccessToken (accessToken : String)
  | refresh (request : RefreshRequest) (fresh : FreshTokens)
  | changePassword (userId : UserId) (request : ChangePasswordRequest) (salt : Option String)
  | issueTokens (userId : UserId) (deviceId : DeviceId) (now : Timestamp) (fresh : FreshTokens)
  | refreshTokens (refreshToken : String) (deviceId : DeviceId) (now : Timestamp)
      (fresh : FreshTokens)
  | revokeByAccessToken (accessToken : String) (now : Timestamp)
  | deleteDevice (sessUserId : UserId) (sessDeviceId target : DeviceId)
  | createDm (userA userB createdBy : UserId) (uuid : String)
  | createGroup (createdBy : UserId) (memberUserIds : List UserId) (uuid : String)
  | createChannel (createdBy : UserId) (adminUserIds subscriberUserIds : List UserId)
      (uuid : String)
  | addMember (convId : ConversationId) (actorUserId newUserId : UserId) (role : MemberRole)
  | removeMember (convId : ConversationId) (actorUserId targetUserId : UserId)
  | subscribeChannel (convId : ConversationId) (userId : UserId)
  | unsubscribeChannel (convId : ConversationId) (userId : UserId)
  | sendEnvelope (request : SendMessageRequest) (uuid : String)
  | acknowledgeEnvelope (userId : UserId) (deviceId : DeviceId) (envelopeId : EnvelopeId)
  | initUpload (userId : UserId) (conversationId : ConversationId) (fileSize : ℤ)
      (mimeHint uuid : String)
  | writeChunk (attachmentId : AttachmentId) (offset : ℤ) (data : String)
  | finalizeUpload (attachmentId : AttachmentId) (ciphertextHash : String)
  | deleteExpiredAttachments
  | deleteUser (userId : UserId)
  | connect (accessToken : String) (connection : ℕ)
  | disconnect (userId : UserId) (deviceId : DeviceId)
  | maintenance
  deriving DecidableEq, Repr

namespace Op

@[reducible] def Res : Op → Type
  | single c => c.Reply
  | register .. => Result RegisterResponse
  | login .. => Result LoginResponse
  | logout _ => VoidResult
  | logoutWithAccessToken _ => VoidResult
  | refresh .. => Result TokenPair
  | changePassword .. => Result ChangePasswordResponse
  | issueTokens .. => Result TokenPair
  | refreshTokens .. => Result RefreshResult
  | revokeByAccessToken .. => VoidResult
  | deleteDevice .. => VoidResult
  | createDm .. => Result ConversationId
  | createGroup .. => Result ConversationId
  | createChannel .. => Result ConversationId
  | addMember .. => VoidResult
  | removeMember .. => VoidResult
  | subscribeChannel .. => VoidResult
  | unsubscribeChannel .. => VoidResult
  | sendEnvelope .. => Result SendMessageResponse
  | acknowledgeEnvelope .. => VoidResult
  | initUpload .. => Result InitUploadResponse
  | writeChunk .. => VoidResult
  | finalizeUpload .. => VoidResult
  | deleteExpiredAttachments => ℕ
  | deleteUser _ => VoidResult
  | connect .. => VoidResult
  | disconnect .. => Unit
  | maintenance => ℕ

variable (cfg : ServerConfig)

def code : (o : Op) → ServerProg o.Res
  | single c => ask c
  | register r salt u d f => AuthService.register cfg r salt u d f
  | login r d f => AuthService.login cfg r d f
  | logout i => AuthService.logout i
  | logoutWithAccessToken t => AuthService.logoutWithAccessToken cfg t
  | refresh r f => AuthService.refresh cfg r f
  | changePassword u r salt => AuthService.changePassword cfg u r salt
  | issueTokens u d now f => TokenManager.issueTokens cfg u d now f
  | refreshTokens t d now f => TokenManager.refreshTokens cfg t d now f
  | revokeByAccessToken t now => TokenManager.revokeByAccessToken cfg t now
  | deleteDevice u d t => Handlers.deleteDevice cfg u d t
  | createDm a b c i => ConversationService.createDm a b c i
  | createGroup c ms i => ConversationService.createGroup cfg c ms i
  | createChannel c as ss i => ConversationService.createChannel cfg c as ss i
  | addMember c a u r => ConversationService.addMember cfg c a u r
  | removeMember c a u => ConversationService.removeMember c a u
  | subscribeChannel c u => ConversationService.subscribeChannel cfg c u
  | unsubscribeChannel c u => ConversationService.unsubscribeChannel c u
  | sendEnvelope r i => RelayService.sendEnvelope cfg r i
  | acknowledgeEnvelope u d e => RelayService.acknowledgeEnvelope u d e
  | initUpload u c n m i => AttachmentService.initUpload cfg u c n m i
  | writeChunk i o data => AttachmentService.writeChunk i o data
  | finalizeUpload i h => AttachmentService.finalizeUpload i h
  | deleteExpiredAttachments => AttachmentService.deleteExpired
  | deleteUser u => Handlers.deleteUser u
  | connect t n => Handlers.connect cfg t n
  | disconnect u d => ask (.wsPush (.unregister (deviceScopeKey u d)))
  | maintenance => Handlers.maintenance

end Op

/-- The server under a configuration; the outside sets the clock. -/
def voxServer (cfg : ServerConfig) : System Call Call.Reply Server Op Op.Res Timestamp where
  exec := Call.exec cfg
  code := Op.code cfg
  env t s := { s with clock := t }

/-- The actions of a run: start an operation, let one make its next call, set the clock. -/
abbrev Act := Action Op Timestamp

abbrev Ev := Event Call Server

abbrev ServerRun := Config Call Call.Reply Server Op Op.Res

abbrev serve (cfg : ServerConfig) (init : Server) (acts : List Act) : ServerRun :=
  (voxServer cfg).run init acts

/-- The database keeps its keys and references in every run, and before every call of it. -/
theorem serve_valid (cfg : ServerConfig) {init : Server} (h : init.db.Valid) (acts : List Act) :
    (serve cfg init acts).state.db.Valid ∧ ∀ ev ∈ (serve cfg init acts).trace, ev.pre.db.Valid :=
  (voxServer cfg).state_invariant (J := fun s => s.db.Valid) (P := fun _ => True) h
    (fun c _ _ hv => c.exec_valid cfg hv) (fun _ _ hv => hv) acts
    (fun o _ => (o.code cfg).only_true)

/-- Between any two calls the conversations of the first are kept with their types. -/
theorem serve_keeps_type (cfg : ServerConfig) (init : Server) (acts : List Act) :
    Always (fun tr ev => ∀ ev' ∈ tr, ∀ r ∈ ev'.pre.db.conversations,
      ∃ r' ∈ ev.pre.db.conversations, r'.conversationId = r.conversationId ∧ r'.type = r.type)
      (serve cfg init acts).trace := by
  refine ((voxServer cfg).always_invariant (Q := fun _ _ => True)
    (I := fun tr s => ∀ ev' ∈ tr, ∀ r ∈ ev'.pre.db.conversations, ∃ r' ∈ s.db.conversations,
      r'.conversationId = r.conversationId ∧ r'.type = r.type)
    (always_of_mem fun _ _ => trivial) (by simp) ?_ (fun _ _ _ h => h)).2
  intro tr s i c _ h ev' hev r hr
  rcases List.mem_append.mp hev with hev | hev
  · obtain ⟨r₁, hr₁, hid, htype⟩ := h ev' hev r hr
    obtain ⟨r₂, hr₂, hid₂, htype₂, -⟩ := Call.exec_keeps_conversation cfg hr₁
    exact ⟨r₂, hr₂, hid₂.trans hid, htype₂.trans htype⟩
  · obtain rfl := List.mem_singleton.mp hev
    obtain ⟨r', hr', hid, htype, -⟩ := Call.exec_keeps_conversation cfg hr
    exact ⟨r', hr', hid, htype⟩

def oneDevice : Server where
  db :=
    { users := [{ (default : UserRecord) with userId := "u" }]
      devices := [{ (default : DeviceRecord) with deviceId := "d", userId := "u" }] }

def registerAlice : List Act :=
  .spawn (.register ⟨"alice", "p", "d", "", "k", "k", "k", "w", "w", "w"⟩ (some "s") "a" "d"
    ⟨"t", "r", "s"⟩) :: List.replicate 6 (.run 0)

end VoxServer
