import VoxServer.Interleaving.Spec
import VoxServer.Net.HttpServer
import VoxServer.Server.Wiring

/-! # The calls of requests

Keys and envelopes are written by few routes only, and with the values of the request's
own body. Registration, login and the change of a password write only keys that are not
empty; the two routes that replace keys write what the body has.
-/

namespace VoxServer

open Interleaving Prog

namespace Call

/-- A call that writes no keys, stores, queues and expires no envelopes and deletes no user. -/
def plain : Call → Bool
  | envelopes (.storeEnvelope _) => false
  | envelopes (.deleteExpired _) => false
  | delivery (.enqueue ..) => false
  | admin _ => false
  | c => !c.writesKeys

theorem plain_of_calm {c : Call} (h : c.calm) : c.plain := by
  unfold plain
  split
  case h_5 => simpa using (calm_iff.mp h).2.1
  all_goals cases h

/-- A call that only reads, hands out a one-time prekey or pushes an event. -/
def quiet : Call → Bool
  | users (.createUser _) | users (.disableUser ..) => false
  | users (.setSyncKeyBundle ..) | users (.updatePasswordCredentials ..) => false
  | devices (.registerDevice _) | devices (.storePrekeys ..) => false
  | devices (.updateSignedPrekey ..) | devices (.revokeDevice ..) => false
  | devices (.updateLastSeen ..) | devices (.consumeOneTimePrekey ..) => false
  | sessions (.createSession _) | sessions (.revokeSession ..) => false
  | sessions (.revokeAllForUser ..) | sessions (.revokeAllForDevice ..) => false
  | sessions (.cleanExpired _) => false
  | conversations (.createConversation _) | conversations (.addMember ..) => false
  | conversations (.removeMember ..) | conversations (.subscribe ..) => false
  | conversations (.unsubscribe ..) => false
  | envelopes (.storeEnvelope _) | envelopes (.addDeliveryState ..) => false
  | envelopes (.markDelivered ..) | envelopes (.markAcked ..) => false
  | envelopes (.deletePendingDeliveryForUserInConversation ..) => false
  | envelopes (.deleteExpired _) => false
  | attachments (.createAttachmentMeta _) | attachments (.markUploadComplete ..) => false
  | attachments (.deleteExpired _) => false
  | syncState (.upsertRecord ..) | syncState (.tombstoneRecord ..) => false
  | admin _ => false
  | delivery _ => false
  | wsPush (.register ..) | wsPush (.unregister _) => false
  | blobs (.write ..) | blobs (.remove _) => false
  | _ => true

def reads (c : Call) : Bool :=
  c.quiet && match c with
    | devices (.getPrekeyBundle ..) => false
    | _ => true

theorem quiet_of_reads {c : Call} (h : c.reads) : c.quiet := (Bool.and_eq_true_iff.mp h).1

theorem plain_of_quiet {c : Call} (h : c.quiet) : c.plain := by
  unfold plain
  split
  case h_5 =>
    unfold writesKeys
    split
    case h_5 => rfl
    all_goals cases h
  all_goals cases h

end Call

namespace Http

/-- The calls that serving a request may make. -/
inductive Issues (cfg : ServerConfig) (req : HttpRequest) (draws : Draws) : Call → Prop
  | plain {c : Call} : c.plain → Issues cfg req draws c
  | createUser {u : UserRecord} : u.userId = draws.uuid → u.bundle.Whole →
      Issues cfg req draws (.users (.createUser u))
  | registerDevice {d : DeviceRecord} : d.Keyed →
      Issues cfg req draws (.devices (.registerDevice d))
  | changeBundle {u : UserId} {b : SyncKeyBundleRecord} : req.method = .post →
      pathOnly req.target = "/v1/account/change-password" → b.Whole →
      Issues cfg req draws (.users (.setSyncKeyBundle u b))
  | putBundle {u : UserId} {o : List (String × Json)} {version : Int32} : req.method = .put →
      putRoute u (pathOnly req.target) = some .keyBundle → parseBody cfg req = .ok o →
      Issues cfg req draws (.users (.setSyncKeyBundle u (keyBundle cfg o version)))
  | signedPrekey {self u : UserId} {d : DeviceId} {o : List (String × Json)} {now : Timestamp} :
      req.method = .put → putRoute self (pathOnly req.target) = some (.signedPrekey u d) →
      parseBody cfg req = .ok o →
      Issues cfg req draws (.devices (.updateSignedPrekey u d (jsonField o "signed_prekey_public")
        (jsonField o "signed_prekey_signature") now))
  | storeEnvelope {e : EnvelopeRecord} : req.method = .post →
      pathOnly req.target = "/v1/messages/send" →
      Issues cfg req draws (.envelopes (.storeEnvelope e))
  | enqueue {u : UserId} {d : DeviceId} {q : QueuedEnvelope} : req.method = .post →
      pathOnly req.target = "/v1/messages/send" →
      Issues cfg req draws (.delivery (.enqueue u d q))
  | deleteUser {u : UserId} : req.method = .delete →
      after? "/v1/admin/users/" (pathOnly req.target) = some u →
      Issues cfg req draws (.admin (.deleteUserRows u))

def Plain {α : Type} (p : ServerProg α) : Prop := p.Only (·.plain)

theorem Plain.of_calm {α : Type} {p : ServerProg α} (h : Calm p) : Plain p :=
  h.mono fun _ => Call.plain_of_calm

def Quiet {α : Type} (p : ServerProg α) : Prop := p.Only (·.quiet)

theorem Plain.of_quiet {α : Type} {p : ServerProg α} (h : Quiet p) : Plain p :=
  h.mono fun _ => Call.plain_of_quiet

section Reads

variable (cfg : ServerConfig) (sess : SessionRecord) (req : HttpRequest)

theorem quiet_notifyEach (line : String) (ds : List DeviceRecord) : Quiet (notifyEach line ds) := by
  induction ds with
  | nil => trivial
  | cons d ds ih =>
    unfold notifyEach
    split
    · exact ih
    · exact only_ask_bind.mpr ⟨rfl, fun _ => ih⟩

theorem quiet_notifyUsers (line : String) (seen us : List UserId) :
    Quiet (notifyUsers line seen us) := by
  induction us generalizing seen with
  | nil => trivial
  | cons u us ih =>
    unfold notifyUsers
    split
    · exact ih seen
    · refine only_ask_bind.mpr ⟨rfl, fun ds => ?_⟩
      exact (quiet_notifyEach line ds).bind fun _ => ih _

theorem quiet_membershipChanged (conv : ConversationId) :
    Quiet (notifyConversationMembershipChanged cfg conv) := by
  refine only_ask_bind.mpr ⟨rfl, fun r => ?_⟩
  split
  · refine only_ask_bind.mpr ⟨rfl, fun ms => ?_⟩
    refine (quiet_notifyUsers _ _ _).bind fun seen => ?_
    split
    · refine only_ask_bind.mpr ⟨rfl, fun ss => ?_⟩
      exact (quiet_notifyUsers _ _ _).bind fun _ => trivial
    · trivial
  · trivial

theorem quiet_notifyUserDevicesExcept (u u' : UserId) (d : DeviceId) (line : String) :
    Quiet (Handlers.notifyUserDevicesExcept u u' d line) :=
  only_ask_bind.mpr ⟨rfl, fun ds => only_notifyDevices (fun _ _ => rfl) _ _ _ ds⟩

theorem quiet_announce {α : Type} (conv : α → ConversationId) (body : α → Json) (r : Result α) :
    Quiet (announce cfg req conv body r) := by
  cases r with
  | error e => trivial
  | ok a => exact (quiet_membershipChanged cfg (conv a)).bind fun _ => trivial

theorem quiet_collectBundles (u : UserId) (ds : List DeviceRecord) :
    Quiet (collectBundles u ds) := by
  induction ds with
  | nil => trivial
  | cons d ds ih =>
    unfold collectBundles
    split
    · exact ih
    · refine only_ask_bind.mpr ⟨rfl, fun r => ?_⟩
      split
      · exact ih
      · exact ih.bind fun _ => trivial

theorem quiet_collectDevices (u : UserId) (ds : List DeviceRecord) :
    Quiet (collectDevices u ds) := by
  induction ds with
  | nil => trivial
  | cons d ds ih =>
    unfold collectDevices
    split
    · exact ih
    · exact only_ask_bind.mpr ⟨rfl, fun n => ih.bind fun _ => trivial⟩

theorem quiet_peerFields (t : ConversationType) (conv : ConversationId) :
    Quiet (peerFields sess t conv) := by
  unfold peerFields
  split
  · exact only_ask_bind.mpr ⟨rfl, fun _ => trivial⟩
  · trivial

theorem quiet_collectConversations (names : UserId → Option String)
    (cs : List (ConversationRecord × Option Timestamp)) :
    Quiet (collectConversations sess names cs) := by
  induction cs with
  | nil => trivial
  | cons c cs ih => exact (quiet_peerFields sess _ _).bind fun _ => ih.bind fun _ => trivial

theorem quiet_channelMembers (conv : ConversationId) : Quiet (channelMembers sess conv) := by
  refine only_ask_bind.mpr ⟨rfl, fun actor => ?_⟩
  refine only_ask_bind.mpr ⟨rfl, fun rows => ?_⟩
  split
  · refine only_ask_bind.mpr ⟨rfl, fun _ => ?_⟩
    exact only_ask_bind.mpr ⟨rfl, fun _ => only_ask_bind.mpr ⟨rfl, fun _ => trivial⟩⟩
  · exact only_ask_bind.mpr ⟨rfl, fun _ => only_ask_bind.mpr ⟨rfl, fun _ => trivial⟩⟩

theorem quiet_groupMembers (conv : ConversationId) : Quiet (groupMembers conv) :=
  only_ask_bind.mpr ⟨rfl, fun _ => only_ask_bind.mpr ⟨rfl, fun _ => trivial⟩⟩

theorem quiet_getMembers (conv : ConversationId) : Quiet (getMembers sess req conv) := by
  refine only_ask_bind.mpr ⟨rfl, fun ok => ?_⟩
  split
  · trivial
  refine only_ask_bind.mpr ⟨rfl, fun r => ?_⟩
  split
  · trivial
  split
  · exact (quiet_channelMembers sess conv).bind fun _ => trivial
  · exact (quiet_groupMembers conv).bind fun _ => trivial

theorem quiet_getPrekeyBundle (u : UserId) (d : DeviceId) : Quiet (getPrekeyBundle req u d) := by
  refine only_ask_bind.mpr ⟨rfl, fun r => ?_⟩
  split <;> trivial

theorem quiet_getAttachment (i : AttachmentId) : Quiet (getAttachment sess req i) := by
  have hmeta : Quiet (AttachmentService.getAttachment i sess.userId) := by
    refine only_ask_bind.mpr ⟨rfl, fun r => ?_⟩
    split
    · split
      · trivial
      · refine only_ask_bind.mpr ⟨rfl, fun ok => ?_⟩
        split <;> trivial
    · trivial
  refine hmeta.bind fun r => ?_
  split
  · trivial
  · refine only_ask_bind.mpr ⟨rfl, fun bytes => ?_⟩
    split <;> trivial

theorem quiet_getPending : Quiet (getPending sess req) := by
  unfold getPending
  split
  · exact only_ask_bind.mpr ⟨rfl, fun _ => trivial⟩
  · trivial

theorem quiet_getEnvelopes (conv : ConversationId) : Quiet (getEnvelopes sess req conv) := by
  refine only_ask_bind.mpr ⟨rfl, fun ok => ?_⟩
  split
  · trivial
  split
  · dsimp only
    split
    · split
      · exact only_ask_bind.mpr ⟨rfl, fun _ => trivial⟩
      · trivial
    · exact only_ask_bind.mpr ⟨rfl, fun _ => trivial⟩
  · trivial

theorem quiet_getConversation (conv : ConversationId) :
    Quiet (getConversation cfg sess req conv) := by
  refine only_ask_bind.mpr ⟨rfl, fun r => ?_⟩
  split
  · trivial
  refine only_ask_bind.mpr ⟨rfl, fun ok => ?_⟩
  split
  · trivial
  refine only_ask_bind.mpr ⟨rfl, fun _ => ?_⟩
  exact (quiet_peerFields sess _ _).bind fun _ => only_ask_bind.mpr ⟨rfl, fun _ => trivial⟩

theorem quiet_getChanges : Quiet (getChanges sess req) := by
  unfold getChanges
  dsimp only
  split
  · trivial
  split
  · exact only_ask_bind.mpr ⟨rfl, fun _ => trivial⟩
  · trivial

theorem quiet_getUsers : Quiet (getUsers req) := by
  unfold getUsers
  dsimp only
  split
  · trivial
  · exact only_ask_bind.mpr ⟨rfl, fun _ => trivial⟩

theorem quiet_getSearch : Quiet (getSearch req) := by
  unfold getSearch
  dsimp only
  split
  · refine only_ask_bind.mpr ⟨rfl, fun _ => ?_⟩
    split <;> trivial
  · trivial

theorem quiet_ofUser (u : UserId) {α : Type} {p : List DeviceRecord → ServerProg α}
    (hp : ∀ ds, Quiet (p ds)) {r : Handled} {body : UserRecord → α → Handled} :
    Quiet (do
      match ← ask (.users (.findById u)) with
      | none => return r
      | some user =>
        if user.disabledAt.isSome then
          return r
        let ds ← ask (.devices (.getDevicesForUser u))
        let entries ← p ds
        return body user entries) := by
  refine only_ask_bind.mpr ⟨rfl, fun found => ?_⟩
  split
  · trivial
  split
  · trivial
  refine only_ask_bind.mpr ⟨rfl, fun ds => ?_⟩
  exact (hp ds).bind fun _ => trivial

theorem quiet_handleGet : Quiet (handleGet cfg sess req) := by
  unfold handleGet
  split
  case h_1 => trivial
  case h_2 | h_4 =>
    refine only_ask_bind.mpr ⟨rfl, fun r => ?_⟩
    split <;> trivial
  case h_3 | h_7 | h_11 => exact only_ask_bind.mpr ⟨rfl, fun _ => trivial⟩
  case h_5 => exact quiet_getChanges sess req
  case h_6 => exact quiet_getUsers req
  case h_8 => exact quiet_getSearch req
  case h_9 userId _ => exact quiet_ofUser userId (quiet_collectBundles userId)
  case h_10 userId _ => exact quiet_ofUser userId (quiet_collectDevices userId)
  case h_12 => exact quiet_getConversation cfg sess req _
  case h_13 => exact quiet_getMembers sess req _
  case h_14 => exact quiet_getPending sess req
  case h_15 => exact quiet_getEnvelopes sess req _
  case h_16 =>
    refine only_ask_bind.mpr ⟨rfl, fun _ => only_ask_bind.mpr ⟨rfl, fun _ => ?_⟩⟩
    exact (quiet_collectConversations sess _ _).bind fun _ => trivial
  case h_17 => exact quiet_getPrekeyBundle req _ _
  case h_18 =>
    refine only_ask_bind.mpr ⟨rfl, fun ds => ?_⟩
    split
    · trivial
    · exact quiet_getPrekeyBundle req _ _
    · trivial
  case h_19 => exact quiet_getAttachment sess req _

end Reads

theorem plain_notifyUserDevicesExcept (u u' : UserId) (d : DeviceId) (line : String) :
    Plain (Handlers.notifyUserDevicesExcept u u' d line) :=
  .of_quiet (quiet_notifyUserDevicesExcept u u' d line)

section Writes

variable {cfg : ServerConfig} {draws : Draws} {sess : SessionRecord} {req : HttpRequest}

theorem only_withBody {P : Call → Prop} {f : List (String × Json) → ServerProg Handled}
    (h : ∀ o, parseBody cfg req = .ok o → (f o).Only P) : (withBody cfg req f).Only P := by
  unfold withBody
  split
  · trivial
  · rename_i o ho
    exact h o ho

theorem only_withDevice {P : Call → Prop} {f : List (String × Json) → ServerProg Handled}
    (h : ∀ o, parseBody cfg req = .ok o → (f o).Only P) : (withDevice cfg sess req f).Only P := by
  refine only_withBody fun o ho => ?_
  split
  · trivial
  · exact h o ho

theorem Issues.of_plain {α : Type} {p : ServerProg α} (h : Plain p) :
    p.Only (Issues cfg req draws) :=
  h.mono fun _ hc => .plain hc

theorem Issues.of_calm {α : Type} {p : ServerProg α} (h : Calm p) :
    p.Only (Issues cfg req draws) :=
  Issues.of_plain (.of_calm h)

theorem issues_calm (c : Call) (hc : c.calm) : Issues cfg req draws c :=
  .plain (Call.plain_of_calm hc)

theorem issues_announce {α : Type} (conv : α → ConversationId) (body : α → Json) (r : Result α) :
    (announce cfg req conv body r).Only (Issues cfg req draws) :=
  Issues.of_plain (.of_quiet (quiet_announce cfg req conv body r))

theorem issues_postConversations :
    (postConversations cfg draws sess req).Only (Issues cfg req draws) := by
  have hm : ∀ u r now, Issues cfg req draws (.conversations (.addMember draws.uuid u r now)) :=
    fun _ _ _ => .plain rfl
  have hs : ∀ u now, Issues cfg req draws (.conversations (.subscribe draws.uuid u now)) :=
    fun _ _ => .plain rfl
  refine only_withBody fun o _ => ?_
  dsimp only
  split
  · exact (Op.only_createDm issues_calm hm _ _ _).bind fun r => issues_announce _ _ r
  split
  · exact (Op.only_createGroup cfg issues_calm hm _ _).bind fun r => issues_announce _ _ r
  split
  · exact (Op.only_createChannel cfg issues_calm hm hs _ _ _).bind fun r => issues_announce _ _ r
  · trivial

theorem issues_postSend (hm : req.method = .post)
    (hpath : pathOnly req.target = "/v1/messages/send") :
    (postSend cfg draws sess req).Only (Issues cfg req draws) := by
  refine only_withDevice fun o _ => ?_
  refine (Op.only_sendEnvelope cfg issues_calm rfl ?_ ?_ ?_).bind fun r => trivial
  · exact fun _ => .storeEnvelope hm hpath
  · exact fun _ _ _ => .enqueue hm hpath
  · exact fun _ _ _ _ => .plain rfl

theorem postRoute_eq_send {self : UserId} {path : String}
    (h : postRoute self path = some .send) : path = "/v1/messages/send" := by
  by_contra hne
  unfold postRoute at h
  rw [if_neg hne] at h
  repeat' split at h
  all_goals simp_all

theorem postRoute_eq_changePassword {self : UserId} {path : String}
    (h : postRoute self path = some .changePassword) : path = "/v1/account/change-password" := by
  by_contra hne
  unfold postRoute at h
  rw [if_neg hne] at h
  repeat' split at h
  all_goals simp_all

theorem putRoute_eq_keyBundle {self : UserId} {path : String}
    (h : putRoute self path = some .keyBundle) : path = "/v1/sync/key-bundle" := by
  by_contra hne
  unfold putRoute at h
  rw [if_neg hne] at h
  repeat' split at h
  all_goals simp_all

theorem adminRoute_eq_deleteUser {req : IncomingRequest} {path : String} {u : UserId}
    (h : adminRoute cfg req path = some (.deleteUser u)) :
    req.method = .delete ∧ after? "/v1/admin/users/" path = some u := by
  unfold adminRoute at h
  split at h
  · cases h
  split at h
  · cases h
  split at h
  · rename_i hm
    exact ⟨hm, by simpa using h⟩
  · cases h

theorem issues_handlePost (hm : req.method = .post) :
    (handlePost cfg draws sess req).Only (Issues cfg req draws) := by
  unfold handlePost
  split
  case h_1 => trivial
  case h_2 =>
    refine only_ask_bind.mpr ⟨.plain rfl, fun now => ?_⟩
    exact only_ask_bind.mpr ⟨.plain rfl, fun _ => trivial⟩
  case h_3 heq =>
    refine only_withBody fun o _ => ?_
    have hb : ∀ b : SyncKeyBundleRecord, b.Whole →
        Issues cfg req draws (.users (.setSyncKeyBundle sess.userId b)) :=
      fun b => .changeBundle hm (postRoute_eq_changePassword heq)
    exact (Op.only_changePassword cfg issues_calm hb _ _).bind fun _ => trivial
  case h_4 heq => exact issues_postSend hm (postRoute_eq_send heq)
  case h_5 =>
    refine only_withDevice fun o _ => ?_
    refine only_ask_bind.mpr ⟨.plain rfl, fun now => ?_⟩
    exact only_ask_bind.mpr ⟨.plain rfl, fun _ => trivial⟩
  case h_6 => exact issues_postConversations
  case h_7 =>
    refine only_withBody fun o _ => ?_
    exact (Op.only_addMember cfg issues_calm (fun _ => .plain rfl) _).bind
      fun r => issues_announce _ _ r
  case h_8 =>
    exact (Op.only_subscribeChannel cfg issues_calm fun _ => .plain rfl).bind
      fun r => issues_announce _ _ r
  case h_9 =>
    exact (Op.only_unsubscribeChannel issues_calm (fun _ => .plain rfl) (fun _ _ _ => .plain rfl)
      fun _ _ => .plain rfl).bind fun r => issues_announce _ _ r
  case h_10 =>
    unfold postPrekeys
    split
    · trivial
    · exact only_withBody fun o _ => only_ask_bind.mpr ⟨.plain rfl, fun _ => trivial⟩
  case h_11 =>
    refine only_withBody fun o _ => ?_
    exact (Op.only_initUpload cfg issues_calm (fun _ _ => .plain rfl) _ _ _ _ _).bind
      fun _ => trivial
  case h_12 =>
    unfold postFinalize
    split
    · trivial
    · refine (Issues.of_calm (calm_finalizeUpload _ _)).bind fun r => ?_
      split <;> trivial

theorem issues_putKeyBundle (hm : req.method = .put)
    (hroute : putRoute sess.userId (pathOnly req.target) = some .keyBundle) :
    (putKeyBundle cfg sess req).Only (Issues cfg req draws) := by
  refine only_withBody fun o ho => ?_
  refine only_ask_bind.mpr ⟨.plain rfl, fun u => ?_⟩
  split
  · trivial
  refine only_ask_bind.mpr ⟨.putBundle hm hroute ho, fun r => ?_⟩
  split
  · trivial
  · exact (Issues.of_plain (plain_notifyUserDevicesExcept _ _ _ _)).bind fun _ => trivial

theorem issues_recordWritten (collection recordId : String) (fields : List (String × Json))
    (r : Result SyncPutResult) :
    (recordWritten cfg sess req collection recordId fields r).Only (Issues cfg req draws) := by
  cases r with
  | error e => trivial
  | ok a => exact (Issues.of_plain (plain_notifyUserDevicesExcept _ _ _ _)).bind fun _ => trivial

theorem issues_putSignedPrekey {u : UserId} {d : DeviceId} (hm : req.method = .put)
    (hroute : putRoute sess.userId (pathOnly req.target) = some (.signedPrekey u d)) :
    (putSignedPrekey cfg sess req u d).Only (Issues cfg req draws) := by
  unfold putSignedPrekey
  split
  · trivial
  refine only_withBody fun o ho => ?_
  refine only_ask_bind.mpr ⟨.plain rfl, fun now => ?_⟩
  refine only_ask_bind.mpr ⟨.signedPrekey hm hroute ho, fun r => ?_⟩
  split
  · trivial
  · exact (Issues.of_plain (plain_notifyUserDevicesExcept _ _ _ _)).bind fun _ => trivial

theorem issues_handlePut (hm : req.method = .put) :
    (handlePut cfg sess req).Only (Issues cfg req draws) := by
  unfold handlePut
  split
  case h_1 => trivial
  case h_2 heq => exact issues_putKeyBundle hm heq
  case h_3 =>
    refine only_withDevice fun o _ => ?_
    refine only_ask_bind.mpr ⟨.plain rfl, fun now => only_ask_bind.mpr ⟨.plain rfl, fun r => ?_⟩⟩
    exact issues_recordWritten _ _ _ r
  case h_4 heq => exact issues_putSignedPrekey hm heq
  case h_5 =>
    unfold putChunk
    split
    · refine (Issues.of_calm (calm_writeChunk _ _ _)).bind fun r => ?_
      split <;> trivial
    · trivial

theorem issues_handleDelete : (handleDelete cfg sess req).Only (Issues cfg req draws) := by
  unfold handleDelete
  split
  case h_1 => trivial
  case h_2 => exact (Issues.of_calm (calm_deleteDevice _ _ _ _)).bind fun _ => trivial
  case h_3 =>
    refine only_withDevice fun o _ => ?_
    refine only_ask_bind.mpr ⟨.plain rfl, fun now => only_ask_bind.mpr ⟨.plain rfl, fun r => ?_⟩⟩
    exact issues_recordWritten _ _ _ r
  case h_4 =>
    exact (Op.only_removeMember issues_calm (fun _ => .plain rfl) (fun _ _ _ => .plain rfl)
      (fun _ _ => .plain rfl) _).bind fun r => issues_announce _ _ r

end Writes

section Server

variable {cfg : ServerConfig} {draws : Draws} {req : IncomingRequest}

theorem issues_tryPublicAuth (r : PublicRoute) :
    (tryPublicAuth cfg draws req r).Only (Issues cfg req.toHttpRequest draws) := by
  cases r with
  | health => trivial
  | register =>
    refine only_withBody fun o _ => ?_
    exact (Op.only_register cfg issues_calm (fun _ hu hb => .createUser hu hb)
      (fun _ hd => .registerDevice hd) _ _ _ _).bind fun _ => trivial
  | login =>
    refine only_withBody fun o _ => ?_
    exact (Op.only_login cfg issues_calm (fun _ hd => .registerDevice hd) _ _ _).bind
      fun _ => trivial
  | refresh =>
    refine only_withBody fun o _ => ?_
    exact (Issues.of_calm (calm_refresh cfg _ _)).bind fun _ => trivial

theorem issues_dispatchHttp (session : Option SessionRecord) :
    (dispatchHttp cfg draws req session).Only (Issues cfg req.toHttpRequest draws) := by
  unfold dispatchHttp
  dsimp only
  split
  · trivial
  split
  · split
    · trivial
    · exact issues_tryPublicAuth _
  split
  · rename_i r hr
    cases r with
    | stats => exact only_ask_bind.mpr ⟨.plain rfl, fun _ => trivial⟩
    | deleteUser u =>
      obtain ⟨hm, hu⟩ := adminRoute_eq_deleteUser hr
      exact (Op.only_deleteUser issues_calm (.deleteUser hm hu)).bind fun _ => trivial
  split
  · split <;> trivial
  split
  · trivial
  unfold handleAuthenticated
  split
  case h_1 hm => exact issues_handlePost hm
  case h_2 => exact Issues.of_plain (.of_quiet (quiet_handleGet _ _ _))
  case h_3 hm => exact issues_handlePut hm
  case h_4 => exact issues_handleDelete
  case h_5 => trivial

theorem issues_serveRequest :
    (serveRequest cfg draws req).Only (Issues cfg req.toHttpRequest draws) := by
  refine Only.bind ?_ fun session => (issues_dispatchHttp session).bind fun _ => trivial
  unfold authenticate
  split
  · trivial
  · refine only_ask_bind.mpr ⟨.plain rfl, fun now => ?_⟩
    exact (Issues.of_calm (calm_validateAccessToken cfg _ now)).bind fun _ => trivial

theorem only_maintenance : (NetOp.maintenance.code cfg).Only
    fun c => c.plain ∨ ∃ now, c = .envelopes (.deleteExpired now) := by
  refine only_ask_bind.mpr ⟨.inl rfl, fun now => only_ask_bind.mpr ⟨.inr ⟨now, rfl⟩, fun _ => ?_⟩⟩
  have hatt : AttachmentService.deleteExpired.Only
      fun c => c.plain ∨ ∃ now, c = .envelopes (.deleteExpired now) :=
    calm_deleteExpired.mono fun c hc => .inl (Call.plain_of_calm hc)
  exact hatt.bind fun _ => trivial

/-- What holds of plain calls, of the purge and of those a request may make holds of all calls. -/
theorem NetOp.only {P : Call → Prop} (o : NetOp) (hplain : ∀ c : Call, c.plain → P c)
    (hpurge : ∀ now, P (.envelopes (.deleteExpired now)))
    (hissues : ∀ req draws, o = .http req draws → ∀ c, Issues cfg req.toHttpRequest draws c → P c) :
    (o.code cfg).Only P := by
  cases o with
  | http req draws => exact issues_serveRequest.mono (hissues req draws rfl)
  | connect t n => exact (calm_connect cfg t n).mono fun c hc => hplain c (Call.plain_of_calm hc)
  | disconnect u d => exact ⟨hplain _ rfl, fun _ => trivial⟩
  | maintenance =>
    refine only_maintenance.mono fun c hc => ?_
    rcases hc with hc | ⟨now, rfl⟩
    · exact hplain c hc
    · exact hpurge now

theorem serveHttp_valid {init : Server} (hv : init.db.Valid) (acts : List NetAct) :
    (serveHttp cfg init acts).state.db.Valid ∧
      ∀ ev ∈ (serveHttp cfg init acts).trace, ev.pre.db.Valid :=
  (httpServer cfg).state_invariant (J := fun s => s.db.Valid) (P := fun _ => True) hv
    (fun c _ _ hs => c.exec_valid cfg hs) (fun _ _ hs => hs) acts
    fun o _ => (o.code cfg).only_true

end Server

section Sessions

def foundSession (ev : Ev) : Option SessionRecord :=
  match ev.call with
  | .sessions (.findByAccessToken hash) => SessionRepository.findByAccessToken hash ev.pre.db
  | _ => none

def sessionOf (es : List Ev) : Option SessionRecord := es.findSome? foundSession

theorem sessionOf_append {es es' : List Ev} {sess : SessionRecord}
    (h : sessionOf es = some sess) : sessionOf (es ++ es') = some sess := by
  rw [sessionOf, List.findSome?_append, ← sessionOf, h]
  rfl

def Sought (sess : SessionRecord) (es : List Ev) : Prop :=
  sessionOf es = some sess ∧
    ∀ ev ∈ es, ev.call = .now ∨ ∃ hash, ev.call = .sessions (.findByAccessToken hash)

/-- If the request is answered with success, the answer fits the calls. -/
def Grants (Fit : List Ev → Json → Prop) (es : List Ev) (h : Handled) : Prop :=
  ∀ version v, h = jsonRes version 200 v → Fit es v

variable {Fit : List Ev → Json → Prop} {es : List Ev} {version : ℕ}

theorem grants_unhandled : Grants Fit es .unhandled := nofun

theorem grants_errRes {status : ℕ} {e : Error} (h : status ≠ 200) :
    Grants Fit es (errRes version status e) := by
  intro _ _ he
  cases he
  exact absurd rfl h

theorem grants_serviceError {e : Error} : Grants Fit es (serviceError version e) := by
  refine grants_errRes ?_
  unfold httpStatusForError
  split <;> decide

theorem grants_jsonRes {v : Json} (h : Fit es v) : Grants Fit es (jsonRes version 200 v) := by
  intro _ _ he
  cases he
  exact h

variable {cfg : ServerConfig} {draws : Draws} {req : IncomingRequest} {J : Server → Prop}
  {K : List Ev → Ev → Prop}

theorem spec_withBody {req : HttpRequest} {f : List (String × Json) → ServerProg Handled}
    (h : ∀ o, parseBody cfg req = .ok o → (f o).Spec (Call.exec cfg) J K (Grants Fit) es) :
    (withBody cfg req f).Spec (Call.exec cfg) J K (Grants Fit) es := by
  unfold withBody
  split
  · rename_i r hr
    unfold parseBody at hr
    split at hr
    · cases hr
      exact grants_serviceError
    · cases hr
    · cases hr
      exact grants_errRes (by decide)
  · rename_i o ho
    exact h o ho

theorem spec_validateAccessToken {token : String} {now : Timestamp}
    (hfind : ∀ es i hash s, K es ⟨i, .sessions (.findByAccessToken hash), s⟩)
    (hes : ∀ ev ∈ es, ev.call = .now) :
    (TokenManager.validateAccessToken cfg token now).Spec (Call.exec cfg) J K
      (fun es r => ∀ sess, r = .ok sess → Sought sess es) es := by
  refine spec_perform_bind.mpr fun i s _ => ⟨hfind _ _ _ _, ?_⟩
  split
  · rename_i found hfound
    split
    · simp
    rintro sess hsess
    obtain rfl : found = sess := Except.ok.inj hsess
    refine ⟨?_, fun ev hev => ?_⟩
    · have hnone : es.findSome? foundSession = none :=
        List.findSome?_eq_none_iff.mpr fun ev hev => by simp [foundSession, hes ev hev]
      have hsome : SessionRepository.findByAccessToken (TokenManager.hashToken cfg token) s.db =
          some found := hfound
      simp [sessionOf, List.findSome?_append, hnone, foundSession, hsome]
    · rcases List.mem_append.mp hev with hev | hev
      · exact .inl (hes ev hev)
      · obtain rfl := List.mem_singleton.mp hev
        exact .inr ⟨_, rfl⟩
  · simp

theorem spec_authenticate (hnow : ∀ es i s, K es ⟨i, .now, s⟩)
    (hfind : ∀ es i hash s, K es ⟨i, .sessions (.findByAccessToken hash), s⟩) :
    (authenticate cfg req).Spec (Call.exec cfg) J K
      (fun es session => ∀ sess, session = some sess → Sought sess es) [] := by
  unfold authenticate
  split
  · simp
  refine spec_perform_bind.mpr fun i s _ => ⟨hnow _ _ _, ?_⟩
  refine (spec_validateAccessToken hfind (by simp)).bind fun es r hr => ?_
  cases r with
  | error e => simp [Except.toOption]
  | ok found =>
    intro sess hsess
    exact hr sess (congrArg Except.ok (Option.some.inj hsess))

theorem spec_serveRequest (hnow : ∀ es i s, K es ⟨i, .now, s⟩)
    (hfind : ∀ es i hash s, K es ⟨i, .sessions (.findByAccessToken hash), s⟩)
    (hpublic : publicRoute req.method (pathOnly req.target) = none)
    (hadmin : adminRoute cfg req (pathOnly req.target) = none)
    (h : ∀ es sess, Sought sess es →
      (handleAuthenticated cfg draws sess req.toHttpRequest).Spec (Call.exec cfg) J K
        (Grants Fit) es) :
    (serveRequest cfg draws req).Spec (Call.exec cfg) J K
      (fun es r => ∀ version v, r = ⟨version, 200, .json v⟩ → Fit es v) [] := by
  refine (spec_authenticate hnow hfind).bind fun es session hsought => ?_
  have hdispatch : (dispatchHttp cfg draws req session).Spec (Call.exec cfg) J K
      (Grants Fit) es := by
    unfold dispatchHttp
    dsimp only
    rw [hpublic, hadmin]
    split
    · exact grants_serviceError
    dsimp only
    cases session with
    | none =>
      dsimp only
      split
      · exact grants_errRes (by decide)
      · exact grants_unhandled
    | some sess =>
      dsimp only
      split
      · exact grants_serviceError
      · exact h es sess (hsought sess rfl)
  refine hdispatch.bind fun es handled hgrants => ?_
  rintro version v hr
  cases handled with
  | unhandled => cases hr
  | threw => cases hr
  | response r => exact hgrants version v (congrArg Handled.response hr)

end Sessions

end Http

end VoxServer
