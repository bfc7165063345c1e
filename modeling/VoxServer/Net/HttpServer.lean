import VoxServer.Auth.AuthService
import VoxServer.Interleaving.Run
import VoxServer.Net.Handlers
import VoxServer.Net.HttpDispatch
import VoxServer.Relay.RelayService

/-! # The HTTP server

A request is authenticated by its bearer token and then dispatched by its verb and path,
first to the public routes, then to those of the admin, then to those that need a session.
The fields of a body are read one by one; a field that is missing or of another type is
empty. Each request makes its calls in between those of other requests.
-/

namespace VoxServer.Http

open Interleaving

structure IncomingRequest extends HttpRequest where
  authorization : Option String := none
  xAdminToken : Option String := none
  deriving DecidableEq, Repr

/-- What serving a request draws from outside: random values, and what the rate limiters say. -/
structure Draws where
  salt : Option String := none
  uuid : String := ""
  deviceUuid : String := ""
  fresh : FreshTokens := ⟨"", "", ""⟩
  authAllowed : Bool := true
  accountAllowed : Bool := true
  deriving DecidableEq, Repr

section Fields

variable (cfg : ServerConfig) (o : List (String × Json))

/-- The bytes of a text up to the first zero, as `c_str` shows them. -/
def cString (s : String) : String := String.ofList (s.toList.takeWhile (· ≠ '\x00'))

/-- The value of an integer field; one that needs the sign bit wraps around. -/
def jsonInt (key : String) : Option ℤ :=
  match o.lookup key with
  | some (.int n) => some (toInt64 n)
  | _ => none

def jsonField (key : String) : String := (jsonString o key).getD ""

def jsonStrings (key : String) : List String :=
  match o.lookup key with
  | some (.arr vs) => vs.filterMap fun
    | .str s => some (cString s)
    | _ => none
  | _ => []

def serializeSyncWrapParams : String :=
  match o.lookup "sync_wrap_params" with
  | some (.obj fields) => cfg.serializeJson (.obj fields)
  | some (.str s) => cString s
  | _ => ""

def parseMemberRole (s : String) : MemberRole :=
  if s = "owner" then .owner else if s = "admin" then .admin else .member

def registerRequest : RegisterRequest where
  username := jsonField o "username"
  passwordDerivedValue := jsonField o "password_derived_value"
  deviceId := jsonField o "device_id"
  deviceLabel := jsonField o "device_label"
  identityKeyPublic := jsonField o "identity_key_public"
  signedPrekeyPublic := jsonField o "signed_prekey_public"
  signedPrekeySignature := jsonField o "signed_prekey_signature"
  wrappedSyncKey := jsonField o "wrapped_sync_key"
  syncWrapSalt := jsonField o "sync_wrap_salt"
  syncWrapParams := serializeSyncWrapParams cfg o

def loginRequest : LoginRequest where
  username := jsonField o "username"
  passwordDerivedValue := jsonField o "password_derived_value"
  deviceId := jsonField o "device_id"
  deviceLabel := jsonField o "device_label"
  identityKeyPublic := jsonField o "identity_key_public"
  signedPrekeyPublic := jsonField o "signed_prekey_public"
  signedPrekeySignature := jsonField o "signed_prekey_signature"

def refreshRequest : RefreshRequest where
  refreshToken := jsonField o "refresh_token"
  deviceId := jsonField o "device_id"

def changePasswordRequest : ChangePasswordRequest where
  currentPasswordDerivedValue := jsonField o "current_password_derived_value"
  newPasswordDerivedValue := jsonField o "new_password_derived_value"
  wrappedSyncKey := jsonField o "wrapped_sync_key"
  syncWrapSalt := jsonField o "sync_wrap_salt"
  syncWrapParams := serializeSyncWrapParams cfg o

/-- The bundle of a `PUT` request, under its new version. -/
def keyBundle (version : Int32) : SyncKeyBundleRecord where
  syncKeyVersion := version
  wrappedSyncKey := jsonField o "wrapped_sync_key"
  syncWrapSalt := jsonField o "sync_wrap_salt"
  syncWrapParams := serializeSyncWrapParams cfg o

def sendRequest (sess : SessionRecord) : SendMessageRequest where
  senderUserId := sess.userId
  senderDeviceId := jsonField o "device_id"
  conversationId := jsonField o "conversation_id"
  ciphertext := jsonField o "ciphertext"
  envelopeId := jsonField o "envelope_id"
  envelopeType := ((jsonInt o "envelope_type").map toInt32).getD 0
  orderingEpoch := jsonInt o "ordering_epoch"

/-- The prekeys of an upload; what is no object in the array is left out. -/
def uploadedPrekeys (deviceId : DeviceId) : List PrekeyRecord :=
  match o.lookup "prekeys" with
  | some (.arr vs) => vs.filterMap fun
    | .obj po => some { prekeyId := jsonField po "prekey_id", deviceId
                        prekeyPublic := jsonField po "prekey_public" }
    | _ => none
  | _ => []

end Fields

section Notifications

variable (cfg : ServerConfig)

/-- The loop over the devices of a user who is notified. -/
def notifyEach (jsonLine : String) : List DeviceRecord → ServerProg Unit
  | [] => return ()
  | d :: ds => do
    if d.revokedAt.isSome then
      notifyEach jsonLine ds
    else
      ask (.wsPush (.notify (deviceScopeKey d.userId d.deviceId) jsonLine))
      notifyEach jsonLine ds

/-- The loop over the users who are notified, each one once; it ends with all that were seen. -/
def notifyUsers (jsonLine : String) (seen : List UserId) :
    List UserId → ServerProg (List UserId)
  | [] => return seen
  | uid :: uids => do
    if uid ∈ seen then
      notifyUsers jsonLine seen uids
    else
      let devs ← ask (.devices (.getDevicesForUser uid))
      notifyEach jsonLine devs
      notifyUsers jsonLine (uid :: seen) uids

def notifyConversationMembershipChanged (convId : ConversationId) : ServerProg Unit := do
  let some conv ← ask (.conversations (.findById convId)) | return ()
  let jsonLine := cfg.serializeJson (.obj [("type", .str "conversation_membership_changed"),
    ("conversation_id", .str convId), ("membership_version", .int conv.membershipVersion)])
  let members ← ask (.conversations (.getMembers convId))
  let seen ← notifyUsers jsonLine [] (members.map (·.userId))
  if conv.type = .channel then
    let subscribers ← ask (.conversations (.getSubscribers convId))
    let _ ← notifyUsers jsonLine seen subscribers
    return ()
  else
    return ()

/-- The event that tells the other devices of a user about a record. -/
def syncRecordChanged (collection recordId : String) (version : Int32) : String :=
  cfg.serializeJson (.obj [("type", .str "sync_record_changed"), ("collection", .str collection),
    ("record_id", .str recordId), ("version", .int version.toInt)])

end Notifications

section Paths

def splitSyncRecordPath (path : String) : Option (String × String) :=
  splitPrefixedPath path "/v1/sync/records/"

/-- The device of a path, under its user or, in the older form, under the user of the session. -/
def deviceScope (self : UserId) (path suf : String) : Option (UserId × DeviceId) :=
  match splitUserDeviceSubPath path suf with
  | some scope => some scope
  | none => (splitDeviceSubPath path suf).map fun deviceId => (self, deviceId)

inductive PostRoute
  | logout
  | changePassword
  | send
  | ack
  | conversations
  | members (convId : ConversationId)
  | subscribe (convId : ConversationId)
  | unsubscribe (convId : ConversationId)
  | prekeys (userId : UserId) (deviceId : DeviceId)
  | uploadInit
  | finalize (attachmentId : AttachmentId)
  deriving DecidableEq, Repr

/-- The tests on the path of a `POST` request, in their order. -/
def postRoute (self : UserId) (path : String) : Option PostRoute :=
  if path = "/v1/logout" then some .logout
  else if path = "/v1/account/change-password" then some .changePassword
  else if path = "/v1/messages/send" then some .send
  else if path = "/v1/messages/ack" then some .ack
  else if path = "/v1/conversations" then some .conversations
  else match splitConvSubPath path with
  | some (convId, "members") => some (.members convId)
  | some (convId, "subscribe") => some (.subscribe convId)
  | some (convId, "unsubscribe") => some (.unsubscribe convId)
  | _ =>
  match deviceScope self path "prekeys" with
  | some (userId, deviceId) => some (.prekeys userId deviceId)
  | none =>
  if path = "/v1/attachments/upload-init" then some .uploadInit
  else (finalizeRoute path).map .finalize

inductive PutRoute
  | keyBundle
  | syncRecord (collection recordId : String)
  | signedPrekey (userId : UserId) (deviceId : DeviceId)
  | chunk (attachmentId : AttachmentId)
  deriving DecidableEq, Repr

/-- The tests on the path of a `PUT` request, in their order. -/
def putRoute (self : UserId) (path : String) : Option PutRoute :=
  if path = "/v1/sync/key-bundle" then some .keyBundle
  else match splitSyncRecordPath path with
  | some (collection, recordId) => some (.syncRecord collection recordId)
  | none =>
  match deviceScope self path "signed-prekey" with
  | some (userId, deviceId) => some (.signedPrekey userId deviceId)
  | none => (chunkRoute path).map .chunk

inductive DeleteRoute
  | device (target : DeviceId)
  | syncRecord (collection recordId : String)
  | member (convId : ConversationId) (targetUser : UserId)
  deriving DecidableEq, Repr

/-- The tests on the path of a `DELETE` request, in their order. -/
def deleteRoute (path : String) : Option DeleteRoute :=
  match after? "/v1/me/devices/" path with
  | some target => if target = "" then none else some (.device target)
  | none =>
  match splitSyncRecordPath path with
  | some (collection, recordId) => some (.syncRecord collection recordId)
  | none => (splitConvSubPath path).bind fun p => (after? "members/" p.2).map (.member p.1)

/-- The table of the routes that need a session, which only requests without one are looked up
in. -/
def isKnownProtectedRoute (m : Verb) (path : String) : Bool :=
  match m with
  | .post =>
    if path = "/v1/logout" ∨ path = "/v1/messages/send" ∨ path = "/v1/messages/ack" ∨
      path = "/v1/conversations" ∨ path = "/v1/attachments/upload-init" ∨
      path = "/v1/account/change-password" then true
    else if (after? "/v1/attachments/" path).isSome ∧ (before? "/finalize" path).isSome then
      (splitAttachmentSubPath path).isSome
    else if (splitConvSubPath path).any fun p =>
      p.2 = "members" ∨ p.2 = "subscribe" ∨ p.2 = "unsubscribe" then true
    else if (splitDeviceSubPath path "prekeys").isSome ∨
      (splitUserDeviceSubPath path "prekeys").isSome then true
    else (splitDeviceSubPath path "signed-prekey").isSome ||
      (splitUserDeviceSubPath path "signed-prekey").isSome
  | .get =>
    if path = "/v1/me" ∨ path = "/v1/me/devices" ∨ path = "/v1/sync/pending" ∨
      path = "/v1/conversations" ∨ path = "/v1/users" ∨ path = "/v1/sync/key-bundle" then true
    else if (after? "/v1/sync/changes" path).isSome then true
    else if (after? "/v1/users/" path).isSome then true
    else if (conversationIdOnly path).isSome then true
    else if (splitConvSubPath path).any fun p => p.2 = "envelopes" ∨ p.2 = "members" then true
    else if (splitDeviceSubPath path "prekey-bundle").isSome ∨
      (splitUserDeviceSubPath path "prekey-bundle").isSome then true
    else if (after? "/v1/users/" path).isSome ∧ occurs "/prekey-bundles" path then true
    else if (after? "/v1/attachments/" path).isSome ∧ ¬ occurs "/chunk" path ∧
      ¬ occurs "/finalize" path then (splitAttachmentSubPath path).isSome
    else false
  | .put =>
    if path = "/v1/sync/key-bundle" then true
    else if (after? "/v1/sync/records/" path).isSome then true
    else if (splitDeviceSubPath path "signed-prekey").isSome ∨
      (splitUserDeviceSubPath path "signed-prekey").isSome then true
    else if (after? "/v1/attachments/" path).isSome ∧ occurs "/chunk" path then
      (splitAttachmentSubPath path).isSome
    else false
  | .delete =>
    if (after? "/v1/me/devices/" path).isSome then true
    else if (after? "/v1/sync/records/" path).isSome then true
    else (splitConvSubPath path).any fun p => (after? "members/" p.2).isSome
  | .other => false

end Paths

section Handlers

variable (cfg : ServerConfig) (draws : Draws) (sess : SessionRecord) (req : HttpRequest)

def respond {α : Type} (body : α → Json) : Result α → Handled
  | .error e => serviceError req.version e
  | .ok a => jsonRes req.version 200 (body a)

def withBody (f : List (String × Json) → ServerProg Handled) : ServerProg Handled :=
  match parseBody cfg req with
  | .error r => return r
  | .ok o => f o

/-- A body that names another device than that of the session is refused. -/
def withDevice (f : List (String × Json) → ServerProg Handled) : ServerProg Handled :=
  withBody cfg req fun o =>
    if jsonField o "device_id" ≠ sess.deviceId then
      return errRes req.version 403 ⟨.forbidden, "device_id must match session device"⟩
    else f o

/-- What a successful change of a conversation is announced with, and answered. -/
def announce {α : Type} (convId : α → ConversationId) (body : α → Json) :
    Result α → ServerProg Handled
  | .error e => return serviceError req.version e
  | .ok a => do
    notifyConversationMembershipChanged cfg (convId a)
    return jsonRes req.version 200 (body a)

def postRegister : ServerProg Handled :=
  withBody cfg req fun o => do
    let result ← AuthService.register cfg (registerRequest cfg o) draws.salt draws.uuid
      draws.deviceUuid draws.fresh
    return respond req (fun r => .obj [("user_id", .str r.userId),
      ("access_token", .str r.tokens.accessToken), ("refresh_token", .str r.tokens.refreshToken),
      ("device_status", .str r.deviceStatus),
      ("sync_key_version", .int r.syncKeyVersion.toInt)]) result

def postLogin : ServerProg Handled :=
  withBody cfg req fun o => do
    let result ← AuthService.login cfg (loginRequest o) draws.deviceUuid draws.fresh
    return respond req (fun r => .obj [("user_id", .str r.userId),
      ("access_token", .str r.tokens.accessToken), ("refresh_token", .str r.tokens.refreshToken),
      ("device_status", .str r.deviceStatus),
      ("sync_key_version", .int r.syncKeyVersion.toInt)]) result

def postRefresh : ServerProg Handled :=
  withBody cfg req fun o => do
    let result ← AuthService.refresh cfg (refreshRequest o) draws.fresh
    return respond req (fun r => .obj [("access_token", .str r.accessToken),
      ("refresh_token", .str r.refreshToken)]) result

def postLogout : ServerProg Handled := do
  let result ← AuthService.logout sess.sessionId
  return respond req (fun _ => .obj []) result

def postChangePassword : ServerProg Handled :=
  withBody cfg req fun o => do
    let result ← AuthService.changePassword cfg sess.userId (changePasswordRequest cfg o) draws.salt
    return respond req (fun r => .obj [("sync_key_version", .int r.syncKeyVersion.toInt)]) result

def postSend : ServerProg Handled :=
  withDevice cfg sess req fun o => do
    let result ← RelayService.sendEnvelope cfg (sendRequest o sess) draws.uuid
    return respond req (fun r => .obj [("envelope_id", .str r.envelopeId),
      ("server_timestamp", .int r.serverTimestamp),
      ("delivered_to_count", .int r.deliveredToCount)]) result

def postAck : ServerProg Handled :=
  withDevice cfg sess req fun o => do
    let result ← RelayService.acknowledgeEnvelope sess.userId sess.deviceId
      (jsonField o "envelope_id")
    return respond req (fun _ => .obj []) result

def postConversations : ServerProg Handled :=
  withBody cfg req fun o => do
    let type := jsonField o "type"
    let created := fun convId : ConversationId => Json.obj [("conversation_id", .str convId)]
    if type = "dm" then
      let r ← ConversationService.createDm sess.userId (jsonField o "peer_user_id") sess.userId
        draws.uuid
      announce cfg req id created r
    else if type = "group" then
      let r ← ConversationService.createGroup cfg sess.userId (jsonStrings o "members") draws.uuid
      announce cfg req id created r
    else if type = "channel" then
      let r ← ConversationService.createChannel cfg sess.userId (jsonStrings o "admins")
        (jsonStrings o "subscribers") draws.uuid
      announce cfg req id created r
    else
      return errRes req.version 400 ⟨.invalidArgument, "type must be dm, group, or channel"⟩

def postMembers (convId : ConversationId) : ServerProg Handled :=
  withBody cfg req fun o => do
    let role := parseMemberRole ((jsonString o "role").getD "member")
    let result ← ConversationService.addMember cfg convId sess.userId (jsonField o "user_id") role
    announce cfg req (fun _ => convId) (fun _ => .obj []) result

def postSubscribe (convId : ConversationId) : ServerProg Handled := do
  let result ← ConversationService.subscribeChannel cfg convId sess.userId
  announce cfg req (fun _ => convId) (fun _ => .obj []) result

def postUnsubscribe (convId : ConversationId) : ServerProg Handled := do
  let result ← ConversationService.unsubscribeChannel convId sess.userId
  announce cfg req (fun _ => convId) (fun _ => .obj []) result

def postPrekeys (userId : UserId) (deviceId : DeviceId) : ServerProg Handled :=
  if userId ≠ sess.userId ∨ deviceId ≠ sess.deviceId then
    return errRes req.version 403 ⟨.forbidden, "Can only upload prekeys for own device"⟩
  else
    withBody cfg req fun o => do
      let result ← ask (.devices (.storePrekeys userId deviceId (uploadedPrekeys o deviceId)))
      return respond req (fun _ => .obj []) result

def postUploadInit : ServerProg Handled :=
  withBody cfg req fun o => do
    let result ← AttachmentService.initUpload cfg sess.userId (jsonField o "conversation_id")
      ((jsonInt o "file_size").getD 0) (jsonField o "mime_hint") draws.uuid
    return respond req (fun r => .obj [("attachment_id", .str r.attachmentId),
      ("blob_path", .str r.blobPath)]) result

/-- `HandleAuthenticated` for a `POST` request. -/
def handlePost : ServerProg Handled :=
  match postRoute sess.userId (pathOnly req.target) with
  | none => return .unhandled
  | some .logout => postLogout sess req
  | some .changePassword => postChangePassword cfg draws sess req
  | some .send => postSend cfg draws sess req
  | some .ack => postAck cfg sess req
  | some .conversations => postConversations cfg draws sess req
  | some (.members convId) => postMembers cfg sess req convId
  | some (.subscribe convId) => postSubscribe cfg sess req convId
  | some (.unsubscribe convId) => postUnsubscribe cfg sess req convId
  | some (.prekeys userId deviceId) => postPrekeys cfg sess req userId deviceId
  | some .uploadInit => postUploadInit cfg draws sess req
  | some (.finalize attachmentId) => postFinalize cfg req attachmentId

/-- The new version is computed from a read that comes before the write. -/
def putKeyBundle : ServerProg Handled :=
  withBody cfg req fun o => do
    match ← ask (.users (.findById sess.userId)) with
    | none => return errRes req.version 404 ⟨.notFound, "User not found"⟩
    | some u =>
      let b := keyBundle cfg o (u.syncKeyVersion + 1)
      match ← ask (.users (.setSyncKeyBundle sess.userId b)) with
      | .error e => return serviceError req.version e
      | .ok () =>
        Handlers.notifyUserDevicesExcept sess.userId sess.userId sess.deviceId
          (Handlers.userDevicesChanged cfg sess.userId)
        return jsonRes req.version 200 (.obj [("sync_key_version", .int b.syncKeyVersion.toInt)])

def recordWritten (collection recordId : String) (fields : List (String × Json)) :
    Result SyncPutResult → ServerProg Handled
  | .error e => return serviceError req.version e
  | .ok result => do
    Handlers.notifyUserDevicesExcept sess.userId sess.userId sess.deviceId
      (syncRecordChanged cfg collection recordId result.version)
    return jsonRes req.version 200 (.obj ([("record_id", .str result.recordId),
      ("version", .int result.version.toInt),
      ("server_updated_at", .int result.serverUpdatedAt)] ++ fields))

/-- The version that a request builds on, narrowed to an `int`. -/
def baseVersion (o : List (String × Json)) : Int32 :=
  Int32.ofInt ((jsonInt o "base_version").getD 0)

def putSyncRecord (collection recordId : String) : ServerProg Handled :=
  withDevice cfg sess req fun o => do
    let now ← ask .now
    let result ← ask (.syncState (.upsertRecord sess.userId collection recordId
      (jsonField o "ciphertext") (jsonField o "content_hash") (baseVersion o)
      ((jsonInt o "client_updated_at").getD now) now))
    recordWritten cfg sess req collection recordId [] result

def putSignedPrekey (userId : UserId) (deviceId : DeviceId) : ServerProg Handled :=
  if userId ≠ sess.userId ∨ deviceId ≠ sess.deviceId then
    return errRes req.version 403 ⟨.forbidden, "Can only rotate signed prekey for own device"⟩
  else
    withBody cfg req fun o => do
      let now ← ask .now
      match ← ask (.devices (.updateSignedPrekey userId deviceId
        (jsonField o "signed_prekey_public") (jsonField o "signed_prekey_signature") now)) with
      | .error e => return serviceError req.version e
      | .ok () =>
        Handlers.notifyUserDevicesExcept sess.userId sess.userId sess.deviceId
          (Handlers.userDevicesChanged cfg sess.userId)
        return jsonRes req.version 200 (.obj [])

/-- `HandleAuthenticated` for a `PUT` request. -/
def handlePut : ServerProg Handled :=
  match putRoute sess.userId (pathOnly req.target) with
  | none => return .unhandled
  | some .keyBundle => putKeyBundle cfg sess req
  | some (.syncRecord collection recordId) => putSyncRecord cfg sess req collection recordId
  | some (.signedPrekey userId deviceId) => putSignedPrekey cfg sess req userId deviceId
  | some (.chunk attachmentId) => putChunk req attachmentId

def deleteSyncRecord (collection recordId : String) : ServerProg Handled :=
  withDevice cfg sess req fun o => do
    let now ← ask .now
    let result ← ask (.syncState (.tombstoneRecord sess.userId collection recordId (baseVersion o)
      ((jsonInt o "client_updated_at").getD now) now))
    recordWritten cfg sess req collection recordId [("deleted", .bool true)] result

/-- `HandleAuthenticated` for a `DELETE` request. -/
def handleDelete : ServerProg Handled :=
  match deleteRoute (pathOnly req.target) with
  | none => return .unhandled
  | some (.device target) => do
    let result ← Handlers.deleteDevice cfg sess.userId sess.deviceId target
    return respond req (fun _ => .obj []) result
  | some (.syncRecord collection recordId) => deleteSyncRecord cfg sess req collection recordId
  | some (.member convId targetUser) => do
    let result ← ConversationService.removeMember convId sess.userId targetUser
    announce cfg req (fun _ => convId) (fun _ => .obj []) result

def handleAuthenticated : ServerProg Handled :=
  match req.method with
  | .post => handlePost cfg draws sess req
  | .get => handleGet cfg sess req
  | .put => handlePut cfg sess req
  | .delete => handleDelete cfg sess req
  | .other => return .unhandled

end Handlers

section Dispatch

variable (cfg : ServerConfig) (draws : Draws) (req : IncomingRequest)

inductive PublicRoute | health | register | login | refresh
  deriving DecidableEq, Repr

def publicRoute (m : Verb) (path : String) : Option PublicRoute :=
  if m = .get ∧ path = "/v1/health" then some .health
  else if m ≠ .post then none
  else if path = "/v1/register" then some .register
  else if path = "/v1/login" then some .login
  else if path = "/v1/refresh" then some .refresh
  else none

def tryPublicAuth : PublicRoute → ServerProg Handled
  | .health => return jsonRes req.version 200 (.obj [("status", .str "ok")])
  | .register => postRegister cfg draws req.toHttpRequest
  | .login => postLogin cfg draws req.toHttpRequest
  | .refresh => postRefresh cfg draws req.toHttpRequest

inductive AdminRoute
  | stats
  | deleteUser (userId : UserId)
  deriving DecidableEq, Repr

/-- The routes of the admin, for requests with the configured token. -/
def adminRoute (path : String) : Option AdminRoute :=
  if cfg.adminToken = "" ∨ req.xAdminToken ≠ some cfg.adminToken then none
  else if req.method = .get ∧ path = "/v1/admin/stats" then some .stats
  else if req.method = .delete then (after? "/v1/admin/users/" path).map .deleteUser
  else none

def tryAdmin : AdminRoute → ServerProg Handled
  | .stats => do
    let stats ← ask .serverStats
    return jsonRes req.version 200 (.obj [("user_count", .int stats.userCount),
      ("device_count", .int stats.deviceCount),
      ("active_session_count", .int stats.activeSessionCount),
      ("conversation_count", .int stats.conversationCount),
      ("pending_envelope_count", .int stats.pendingEnvelopeCount),
      ("total_storage_bytes", .int stats.totalStorageBytes)])
  | .deleteUser userId => do
    let result ← Handlers.deleteUser userId
    return respond req.toHttpRequest (fun _ => .obj []) result

/-- The requests that count against the limit of an account. -/
def heavyRoute (m : Verb) (path : String) : Bool :=
  m = .post ∧ path = "/v1/messages/send" ∨
    m = .put ∧ (after? "/v1/attachments/" path).isSome ∧ occurs "/chunk" path

def dispatchHttp (session : Option SessionRecord) : ServerProg Handled :=
  let path := pathOnly req.target
  let tooMany := serviceError req.version ⟨.rateLimited, "Too many requests"⟩
  if req.body.length > cfg.maxHttpBodyBytes then
    return serviceError req.version ⟨.payloadTooLarge, "Request body too large"⟩
  else match publicRoute req.method path with
  | some r =>
    if r ≠ .health ∧ ¬ draws.authAllowed then return tooMany else tryPublicAuth cfg draws req r
  | none =>
  match adminRoute cfg req path with
  | some r => tryAdmin req r
  | none =>
  match session with
  | none =>
    if isKnownProtectedRoute req.method path then
      return errRes req.version 401 ⟨.unauthorized, "Authentication required"⟩
    else return .unhandled
  | some sess =>
    if heavyRoute req.method path ∧ ¬ draws.accountAllowed then return tooMany
    else handleAuthenticated cfg draws sess req.toHttpRequest

/-- The token of an `Authorization` header. -/
def parseBearer : Option String :=
  req.authorization.bind fun v => (after? "Bearer " v).filter (· ≠ "")

def authenticate : ServerProg (Option SessionRecord) :=
  match parseBearer req with
  | none => return none
  | some token => do
    let now ← ask .now
    let session ← TokenManager.validateAccessToken cfg token now
    return session.toOption

def Handled.toResponse (version : ℕ) : Handled → HttpResponse
  | .response r => r
  | .unhandled => ⟨version, 404, .empty⟩
  | .threw => ⟨version, 500, .json (errObj ⟨.internal, "Internal server error"⟩)⟩

def serveRequest : ServerProg HttpResponse := do
  let session ← authenticate cfg req
  let handled ← dispatchHttp cfg draws req session
  return handled.toResponse req.version

end Dispatch

section Server

/-- What is sent to the connection of a device when an envelope is queued for it. -/
def pushJson (q : QueuedEnvelope) : Json :=
  .obj ([("type", .str "envelope"), ("envelope_id", .str q.envelopeId),
    ("conversation_id", .str q.conversationId), ("sender_user_id", .str q.senderUserId),
    ("sender_device_id", .str q.senderDeviceId), ("ciphertext", .str q.ciphertext),
    ("server_timestamp", .int q.serverTimestamp), ("envelope_type", .int q.envelopeType)] ++
    q.orderingEpoch.toList.map fun epoch => ("ordering_epoch", .int epoch))

/-- What the server does: requests, WebSocket connections that come and go, and the purge. -/
inductive NetOp
  | http (req : IncomingRequest) (draws : Draws)
  | connect (accessToken : String) (connection : ℕ)
  | disconnect (userId : UserId) (deviceId : DeviceId)
  | maintenance
  deriving DecidableEq, Repr

namespace NetOp

@[reducible] def Res : NetOp → Type
  | http .. => HttpResponse
  | connect .. => VoidResult
  | disconnect .. => Unit
  | maintenance => ℕ × ℕ

def code (cfg : ServerConfig) : (o : NetOp) → ServerProg o.Res
  | http req draws => serveRequest cfg draws req
  | connect t n => Handlers.connect cfg t n
  | disconnect u d => ask (.wsPush (.unregister (deviceScopeKey u d)))
  | maintenance => do
    let envelopes ← Handlers.maintenance
    let attachments ← AttachmentService.deleteExpired
    return (envelopes, attachments)

end NetOp

/-- The server behind its network interface; the outside sets the clock. -/
def httpServer (cfg : ServerConfig) :
    System Call Call.Reply Server NetOp NetOp.Res Timestamp where
  exec := Call.exec cfg
  code := NetOp.code cfg
  env t s := { s with clock := t }

abbrev NetAct := Action NetOp Timestamp

abbrev NetRun := Config Call Call.Reply Server NetOp NetOp.Res

def serveHttp (cfg : ServerConfig) (init : Server) (acts : List NetAct) : NetRun :=
  (httpServer cfg).run init acts

end Server

end VoxServer.Http
