import VoxServer.Net.HttpRequest
import VoxServer.Relay.ConversationService
import VoxServer.Attachments.AttachmentService

/-! # The handlers of authenticated requests

The reading routes and the routes that take uploads. Each route checks by itself what
the user of the session may see; the chunks and the end of an upload are taken from
every session.
-/

namespace VoxServer.Http

open Interleaving

section Json

def usernameMapFromProfiles (profiles : List UserPublicProfile) : UserId → Option String :=
  profiles.foldl (fun m p => Function.update m p.userId (some p.username)) fun _ => none

def strOrNull : Option String → Json
  | some s => .str s
  | none => .null

def dmPeerUserId (members : List MemberRecord) (selfUserId : UserId) : Option UserId :=
  match members.find? (·.userId ≠ selfUserId) with
  | some member => some member.userId
  | none => (members.find? (·.userId = selfUserId)).map (·.userId)

def typeNumber : ConversationType → ℤ
  | .dm => 0
  | .group => 1
  | .channel => 2

def roleName : MemberRole → String
  | .owner => "owner"
  | .admin => "admin"
  | .member => "member"

def profileJson (p : UserPublicProfile) : Json :=
  .obj [("user_id", .str p.userId), ("username", .str p.username)]

def userJson (u : UserRecord) : Json :=
  .obj [("user_id", .str u.userId), ("username", .str u.username)]

def memberJson (names : UserId → Option String) (userId : UserId) (role : MemberRole) : Json :=
  .obj [("user_id", .str userId), ("username", strOrNull (names userId)),
    ("role", .str (roleName role))]

def envelopeJson (e : EnvelopeRecord) : Json :=
  .obj ([("envelope_id", .str e.envelopeId), ("conversation_id", .str e.conversationId),
    ("sender_user_id", .str e.senderUserId), ("sender_device_id", .str e.senderDeviceId),
    ("ciphertext", .str e.ciphertext), ("server_timestamp", .int e.serverTimestamp),
    ("envelope_type", .int e.envelopeType)] ++
    e.orderingEpoch.toList.map fun epoch => ("ordering_epoch", .int epoch))

def envelopesJson (envelopes : List EnvelopeRecord) (nextCursor : String) (hasMore : Bool) :
    Json :=
  .obj [("envelopes", .arr (envelopes.map envelopeJson)), ("next_cursor", .str nextCursor),
    ("has_more", .bool hasMore)]

def bundleFields (b : PrekeyBundle) : List (String × Json) :=
  [("identity_key_public", .str b.identityKeyPublic),
    ("signed_prekey_public", .str b.signedPrekeyPublic),
    ("signed_prekey_signature", .str b.signedPrekeySignature)] ++
    (b.oneTimePrekeyPublic.toList.map fun k => ("one_time_prekey_public", .str k)) ++
    b.oneTimePrekeyId.toList.map fun i => ("one_time_prekey_id", .str i)

def parsePolicyBlob (cfg : ServerConfig) (policyBlob : String) : List (String × Json) :=
  if policyBlob = "" then [] else
  match cfg.parseJson policyBlob with
  | .ok (.obj o) => o
  | _ => []

end Json

inductive GetRoute
  | me
  | myDevices
  | keyBundle
  | changes
  | users
  | userByUsername (username : String)
  | search
  | prekeyBundles (userId : UserId)
  | devicesOf (userId : UserId)
  | user (userId : UserId)
  | conversation (convId : ConversationId)
  | members (convId : ConversationId)
  | pending
  | envelopes (convId : ConversationId)
  | conversations
  | prekeyBundle (userId : UserId) (deviceId : DeviceId)
  | prekeyBundleOfDevice (deviceId : DeviceId)
  | attachment (attachmentId : AttachmentId)
  deriving DecidableEq, Repr

/-- The tests on the path of a `GET` request, in their order. A path under `/v1/users/` with a
further slash ends the search, so `prekeyBundle` is never reached. -/
def getRoute (path : String) : Option GetRoute :=
  if path = "/v1/me" then some .me
  else if path = "/v1/me/devices" then some .myDevices
  else if path = "/v1/sync/key-bundle" then some .keyBundle
  else if (after? "/v1/sync/changes" path).isSome then some .changes
  else if path = "/v1/users" then some .users
  else match after? "/v1/users/by-username/" path with
  | some username => some (.userByUsername username)
  | none =>
  if path = "/v1/users/search" then some .search
  else match before? "/prekey-bundles" path with
  | some base => if base = "" then none else (after? "/v1/users/" base).map .prekeyBundles
  | none =>
  match before? "/devices" path with
  | some base => if base = "" then none else (after? "/v1/users/" base).map .devicesOf
  | none =>
  match after? "/v1/users/" path with
  | some rest =>
    if '/' ∈ rest.toList ∨ rest = "search" ∨ (after? "by-username" rest).isSome then none
    else some (.user rest)
  | none =>
  match conversationIdOnly path, splitConvSubPath path with
  | some convId, _ => some (.conversation convId)
  | none, some (convId, "members") => some (.members convId)
  | none, some (convId, "envelopes") => some (.envelopes convId)
  | none, _ =>
  if path = "/v1/sync/pending" then some .pending
  else if path = "/v1/conversations" then some .conversations
  else match splitUserDeviceSubPath path "prekey-bundle" with
  | some (userId, deviceId) => some (.prekeyBundle userId deviceId)
  | none =>
  match splitDeviceSubPath path "prekey-bundle" with
  | some deviceId => some (.prekeyBundleOfDevice deviceId)
  | none =>
  if occurs "/chunk" path ∨ occurs "/finalize" path then none
  else (splitAttachmentSubPath path).map .attachment

variable (cfg : ServerConfig) (sess : SessionRecord) (req : HttpRequest)

/-- The `limit` of the query; a value that is no number throws. -/
def queryLimit (default : UInt64) : Option UInt64 :=
  match queryParam req.target "limit" with
  | none => some default
  | some l => stoull l.toList

def getMe : ServerProg Handled := do
  match ← ask (.users (.findById sess.userId)) with
  | none => return errRes req.version 404 ⟨.notFound, "User not found"⟩
  | some u => return jsonRes req.version 200 (.obj [("user_id", .str sess.userId),
      ("username", .str u.username), ("current_device_id", .str sess.deviceId),
      ("sync_key_version", .int u.syncKeyVersion.toInt)])

def getMyDevices : ServerProg Handled := do
  let devs ← ask (.devices (.getDevicesForUser sess.userId))
  return jsonRes req.version 200 (.obj [("devices", .arr (devs.map fun d =>
    .obj [("device_id", .str d.deviceId), ("device_label", .str d.deviceLabel),
      ("created_at", .int d.createdAt), ("last_seen_at", .int d.lastSeenAt),
      ("is_current", .bool (d.deviceId = sess.deviceId)),
      ("is_revoked", .bool d.revokedAt.isSome)]))])

def getKeyBundle : ServerProg Handled := do
  match ← ask (.users (.getSyncKeyBundle sess.userId)) with
  | none => return errRes req.version 404 ⟨.notFound, "User not found"⟩
  | some b => return jsonRes req.version 200 (.obj [
      ("sync_key_version", .int b.syncKeyVersion.toInt),
      ("wrapped_sync_key", .str b.wrappedSyncKey), ("sync_wrap_salt", .str b.syncWrapSalt),
      ("sync_wrap_params", (cfg.parseJson b.syncWrapParams).toOption.getD (.obj []))])

def getChanges : ServerProg Handled := do
  let coll := (queryParam req.target "collection").getD ""
  if coll = "" then
    return errRes req.version 400 ⟨.invalidArgument, "collection required"⟩
  let some limit := queryLimit req kDefaultPaginationLimit | return .threw
  let cursor := (queryParam req.target "cursor").getD ""
  let page ← ask (.syncState (.listChangesAfterCursor sess.userId coll cursor limit))
  return jsonRes req.version 200 (.obj [("collection", .str coll),
    ("changes", .arr (page.changes.map fun ch =>
      .obj [("record_id", .str ch.recordId), ("ciphertext", .str ch.ciphertext),
        ("content_hash", .str ch.contentHash), ("version", .int ch.version.toInt),
        ("server_updated_at", .int ch.serverUpdatedAt), ("deleted", .bool ch.deleted)])),
    ("next_cursor", .str page.nextCursor), ("has_more", .bool page.hasMore)])

def getUsers : ServerProg Handled := do
  let ids := parseIdsQuery req.target
  if ids.length > kMaxUserBatchIds then
    return errRes req.version 400 ⟨.invalidArgument, "too many ids"⟩
  let profiles ← ask (.users (.findPublicProfilesByIds ids))
  return jsonRes req.version 200 (.obj [("users", .arr (profiles.map profileJson))])

def publicUser : Option UserRecord → Handled
  | some u =>
    if u.disabledAt.isSome then errRes req.version 404 ⟨.notFound, "User not found"⟩
    else jsonRes req.version 200 (userJson u)
  | none => errRes req.version 404 ⟨.notFound, "User not found"⟩

def getUserByUsername (username : String) : ServerProg Handled := do
  return publicUser req (← ask (.users (.findByUsername username)))

def getUser (userId : UserId) : ServerProg Handled := do
  return publicUser req (← ask (.users (.findById userId)))

def getSearch : ServerProg Handled := do
  let q := (queryParam req.target "q").getD ""
  let some limit := queryLimit req kDefaultUserSearchLimit | return .threw
  let some found ← ask (.users (.searchByUsernamePrefix q (min limit kMaxUserSearchLimit)))
    | return .threw
  return jsonRes req.version 200 (.obj [("users", .arr (found.map userJson))])

/-- The loop over the devices of a user; a device without a bundle is left out. -/
def collectBundles (userId : UserId) : List DeviceRecord → ServerProg (List Json)
  | [] => return []
  | d :: ds => do
    if d.revokedAt.isSome then
      collectBundles userId ds
    else
      match ← ask (.devices (.getPrekeyBundle userId d.deviceId)) with
      | .error _ => collectBundles userId ds
      | .ok b =>
        let rest ← collectBundles userId ds
        return .obj ([("device_id", .str d.deviceId), ("device_label", .str d.deviceLabel)] ++
          bundleFields b) :: rest

def getPrekeyBundles (userId : UserId) : ServerProg Handled := do
  match ← ask (.users (.findById userId)) with
  | none => return errRes req.version 404 ⟨.notFound, "User not found"⟩
  | some u =>
    if u.disabledAt.isSome then
      return errRes req.version 404 ⟨.notFound, "User not found"⟩
    let devs ← ask (.devices (.getDevicesForUser userId))
    let bundles ← collectBundles userId devs
    return jsonRes req.version 200 (.obj [("user_id", .str u.userId),
      ("username", .str u.username), ("bundles", .arr bundles)])

/-- The loop over the devices of a user, each with whether it has prekeys. -/
def collectDevices (userId : UserId) : List DeviceRecord → ServerProg (List Json)
  | [] => return []
  | d :: ds => do
    if d.revokedAt.isSome then
      collectDevices userId ds
    else
      let n ← ask (.devices (.countAvailableOneTimePrekeys userId d.deviceId))
      let rest ← collectDevices userId ds
      return .obj [("device_id", .str d.deviceId), ("device_label", .str d.deviceLabel),
        ("is_revoked", .bool false), ("has_prekeys", .bool (n > 0))] :: rest

def getDevicesOf (userId : UserId) : ServerProg Handled := do
  match ← ask (.users (.findById userId)) with
  | none => return errRes req.version 404 ⟨.notFound, "User not found"⟩
  | some u =>
    if u.disabledAt.isSome then
      return errRes req.version 404 ⟨.notFound, "User not found"⟩
    let devs ← ask (.devices (.getDevicesForUser userId))
    let entries ← collectDevices userId devs
    return jsonRes req.version 200 (.obj [("devices", .arr entries)])

def peerFields (type : ConversationType) (convId : ConversationId) :
    ServerProg (List (String × Json)) := do
  if type = .dm then
    let members ← ask (.conversations (.getMembers convId))
    return [("peer_user_id", strOrNull (dmPeerUserId members sess.userId))]
  else
    return []

def channelFields (conv : ConversationRecord) : List (String × Json) :=
  let pol := parsePolicyBlob cfg conv.policyBlob
  if conv.type = .channel then
    [("title", (pol.lookup "title").getD (.str "")),
      ("channel_post_policy", .str ((jsonString pol "channel_post_policy").getD "admins_only"))]
  else []

/-- The role of the user; subscribers of a channel have one without a row of their own. -/
def roleFields (type : ConversationType) : Option MemberRecord → List (String × Json)
  | some m => [("my_role", .str (roleName m.role))]
  | none => if type = .channel then [("my_role", .str "member")] else []

def getConversation (convId : ConversationId) : ServerProg Handled := do
  match ← ask (.conversations (.findById convId)) with
  | none => return errRes req.version 404 ⟨.notFound, "Conversation not found"⟩
  | some conv =>
    if !(← ask (.conversations (.isUserInConversation convId sess.userId))) then
      return errRes req.version 403 ⟨.forbidden, "Not a member of this conversation"⟩
    let prof ← ask (.users (.findPublicProfilesByIds [conv.createdBy]))
    let peer ← peerFields sess conv.type convId
    let mem ← ask (.conversations (.getMember convId sess.userId))
    return jsonRes req.version 200 (.obj ([("conversation_id", .str conv.conversationId),
      ("type", .int (typeNumber conv.type)), ("created_by", .str conv.createdBy),
      ("created_by_username", strOrNull (prof.head?.map (·.username))),
      ("created_at", .int conv.createdAt), ("membership_version", .int conv.membershipVersion)] ++
      peer ++ channelFields cfg conv ++ roleFields conv.type mem))

def groupMembers (convId : ConversationId) : ServerProg (List (String × Json)) := do
  let mems ← ask (.conversations (.getMembers convId))
  let profiles ← ask (.users (.findPublicProfilesByIds (mems.map (·.userId))))
  let names := usernameMapFromProfiles profiles
  return [("members", .arr (mems.map fun m => memberJson names m.userId m.role))]

/-- The admins of a channel; admins see the subscribers as well, others how many there are. -/
def channelMembers (convId : ConversationId) : ServerProg (List (String × Json)) := do
  let actor ← ask (.conversations (.getMember convId sess.userId))
  let isAdmin := actor.any fun m => m.role = .owner ∨ m.role = .admin
  let adminRows ← ask (.conversations (.getMembers convId))
  let admins := adminRows.map (·.userId)
  if isAdmin then
    let batch ← ask (.conversations (.getSubscribers convId))
    let profiles ← ask (.users (.findPublicProfilesByIds (admins ++ batch.filter (· ∉ admins))))
    let names := usernameMapFromProfiles profiles
    let subs ← ask (.conversations (.getSubscribers convId))
    return [("admins", .arr (adminRows.map fun m => memberJson names m.userId m.role)),
      ("subscribers", .arr ((subs.filter (· ∉ admins)).map fun u => memberJson names u .member))]
  else
    let profiles ← ask (.users (.findPublicProfilesByIds admins))
    let names := usernameMapFromProfiles profiles
    let subs ← ask (.conversations (.getSubscribers convId))
    return [("admins", .arr (adminRows.map fun m => memberJson names m.userId m.role)),
      ("subscription_state", .str "subscribed"), ("member_count", .int subs.length)]

def getMembers (convId : ConversationId) : ServerProg Handled := do
  if !(← ask (.conversations (.isUserInConversation convId sess.userId))) then
    return errRes req.version 403 ⟨.forbidden, "Not a member of this conversation"⟩
  match ← ask (.conversations (.findById convId)) with
  | none => return errRes req.version 404 ⟨.notFound, "Conversation not found"⟩
  | some crec =>
    let fields ← if crec.type = .channel then channelMembers sess convId else groupMembers convId
    return jsonRes req.version 200 (.obj ([("conversation_id", .str convId),
      ("membership_version", .int crec.membershipVersion)] ++ fields))

def getPending : ServerProg Handled := do
  let some limit := queryLimit req kDefaultPaginationLimit | return .threw
  let cursor := (queryParam req.target "cursor").getD ""
  let page ← ask (.envelopes
    (.getPendingForDeviceCursored sess.userId sess.deviceId cursor limit))
  return jsonRes req.version 200 (envelopesJson page.envelopes page.nextCursor page.hasMore)

def getEnvelopes (convId : ConversationId) : ServerProg Handled := do
  if !(← ask (.conversations (.isUserInConversation convId sess.userId))) then
    return errRes req.version 403 ⟨.forbidden, "Not a member of this conversation"⟩
  let some limit := queryLimit req kDefaultPaginationLimit | return .threw
  let cursor := (queryParam req.target "cursor").getD ""
  match if cursor = "" then queryParam req.target "since" else none with
  | some since =>
    let some since := EnvelopeRepository.stoll since.toList | return .threw
    let list ← ask (.envelopes (.listForConversation convId since limit))
    return jsonRes req.version 200 (envelopesJson list "" false)
  | none =>
    let page ← ask (.envelopes (.listForConversationCursored convId cursor limit))
    return jsonRes req.version 200 (envelopesJson page.envelopes page.nextCursor page.hasMore)

/-- The loop over the conversations of the user. -/
def collectConversations (names : UserId → Option String) :
    List (ConversationRecord × Option Timestamp) → ServerProg (List Json)
  | [] => return []
  | (c, lastActivityAt) :: list => do
    let peer ← peerFields sess c.type c.conversationId
    let rest ← collectConversations names list
    return .obj ([("conversation_id", .str c.conversationId), ("type", .int (typeNumber c.type)),
      ("created_by", .str c.createdBy), ("created_by_username", strOrNull (names c.createdBy)),
      ("created_at", .int c.createdAt), ("membership_version", .int c.membershipVersion)] ++ peer ++
      [("last_activity_at", lastActivityAt.elim .null .int)]) :: rest

def getConversations : ServerProg Handled := do
  let list ← ask (.conversations (.getConversationsForUser sess.userId))
  let profiles ← ask (.users (.findPublicProfilesByIds (list.map (·.1.createdBy))))
  let entries ← collectConversations sess (usernameMapFromProfiles profiles) list
  return jsonRes req.version 200 (.obj [("conversations", .arr entries)])

def getPrekeyBundle (userId : UserId) (deviceId : DeviceId) : ServerProg Handled := do
  match ← ask (.devices (.getPrekeyBundle userId deviceId)) with
  | .error e => return serviceError req.version e
  | .ok b => return jsonRes req.version 200 (.obj ([("user_id", .str userId),
      ("device_id", .str deviceId)] ++ bundleFields b))

def getPrekeyBundleOfDevice (deviceId : DeviceId) : ServerProg Handled := do
  match ← ask (.devices (.findAllByDeviceId deviceId)) with
  | [] => return errRes req.version 404 ⟨.notFound, "Device not found"⟩
  | [d] => getPrekeyBundle req d.userId deviceId
  | _ => return errRes req.version 400 ⟨.invalidArgument, "device_id is ambiguous; use " ++
      "/v1/users/\x7buser_id\x7d/devices/\x7bdevice_id\x7d/prekey-bundle"⟩

def getAttachment (attachmentId : AttachmentId) : ServerProg Handled := do
  match ← AttachmentService.getAttachment attachmentId sess.userId with
  | .error e => return serviceError req.version e
  | .ok path =>
    match ← ask (.blobs (.read path)) with
    | none => return serviceError req.version ⟨.internal, "Cannot open attachment blob"⟩
    | some bytes => return .response ⟨req.version, 200, .file bytes⟩

/-- `HandleAuthenticated` for a `GET` request. -/
def handleGet : ServerProg Handled :=
  match getRoute (pathOnly req.target) with
  | none => return .unhandled
  | some .me => getMe sess req
  | some .myDevices => getMyDevices sess req
  | some .keyBundle => getKeyBundle cfg sess req
  | some .changes => getChanges sess req
  | some .users => getUsers req
  | some (.userByUsername username) => getUserByUsername req username
  | some .search => getSearch req
  | some (.prekeyBundles userId) => getPrekeyBundles req userId
  | some (.devicesOf userId) => getDevicesOf req userId
  | some (.user userId) => getUser req userId
  | some (.conversation convId) => getConversation cfg sess req convId
  | some (.members convId) => getMembers sess req convId
  | some .pending => getPending sess req
  | some (.envelopes convId) => getEnvelopes sess req convId
  | some .conversations => getConversations sess req
  | some (.prekeyBundle userId deviceId) => getPrekeyBundle req userId deviceId
  | some (.prekeyBundleOfDevice deviceId) => getPrekeyBundleOfDevice req deviceId
  | some (.attachment attachmentId) => getAttachment sess req attachmentId

/-- The upload that a `PUT` request has a chunk of, by its path. -/
def chunkRoute (path : String) : Option AttachmentId :=
  if occurs "/chunk" path then splitAttachmentSubPath path else none

/-- The upload that a `POST` request ends, by its path. -/
def finalizeRoute (path : String) : Option AttachmentId :=
  if (before? "/finalize" path).isSome then splitAttachmentSubPath path else none

/-- The `offset` of the query; a value that is no number throws. -/
def queryOffset : Option ℤ :=
  match queryParam req.target "offset" with
  | none => some 0
  | some off => EnvelopeRepository.stoll off.toList

def putChunk (attachmentId : AttachmentId) : ServerProg Handled := do
  let some offset := queryOffset req | return .threw
  match ← AttachmentService.writeChunk attachmentId offset req.body with
  | .error e => return serviceError req.version e
  | .ok () => return jsonRes req.version 200 (.obj [])

def parseBody : Except Handled (List (String × Json)) :=
  match cfg.parseJson req.body with
  | .error msg => .error (serviceError req.version ⟨.invalidArgument, msg⟩)
  | .ok (.obj o) => .ok o
  | .ok _ => .error (errRes req.version 400 ⟨.invalidArgument, "JSON object expected"⟩)

def postFinalize (attachmentId : AttachmentId) : ServerProg Handled := do
  match parseBody cfg req with
  | .error r => return r
  | .ok o =>
    let hash := (jsonString o "ciphertext_hash").getD ""
    match ← AttachmentService.finalizeUpload attachmentId hash with
    | .error e => return serviceError req.version e
    | .ok () => return jsonRes req.version 200 (.obj [])

/-- `HandleAuthenticated` for the requests that go on with an upload. No earlier test on the path
takes them, and nothing is read from the session. -/
def handleUpload (_sess : SessionRecord) : ServerProg Handled :=
  match req.method with
  | .put => (chunkRoute (pathOnly req.target)).elim (return .unhandled) (putChunk req)
  | .post => (finalizeRoute (pathOnly req.target)).elim (return .unhandled) (postFinalize cfg req)
  | _ => return .unhandled

end VoxServer.Http
