import VoxServer.Net.HttpCalls

/-! # What requests may write

Every write of a request is allowed by something that the request itself found out before:
the session of its token, the password or the refresh token in its body, the right to send
to a conversation or to manage it. Between the check and the write other requests run, so
the condition held at some moment of the request.
-/

namespace VoxServer.Http

open Interleaving Prog

/-- At one of its calls the request met the server in such a state. -/
def Sometime (φ : Server → Prop) (es : List Ev) : Prop := ∃ ev ∈ es, φ ev.pre

instance (φ : Server → Prop) [DecidablePred φ] (es : List Ev) : Decidable (Sometime φ es) :=
  inferInstanceAs (Decidable (∃ ev ∈ es, φ ev.pre))

/-- What further calls do not undo. -/
def Stable (I : List Ev → Prop) : Prop := ∀ ⦃es es'⦄, es ⊆ es' → I es → I es'

theorem Sometime.stable {φ : Server → Prop} : Stable (Sometime φ) := by
  rintro es es' hsub ⟨ev, hev, hφ⟩
  exact ⟨ev, hsub hev, hφ⟩

theorem sometime_snoc {φ : Server → Prop} {es : List Ev} {i : ℕ} {c : Call} {s : Server}
    (h : φ s) : Sometime φ (es ++ [⟨i, c, s⟩]) := ⟨⟨i, c, s⟩, by simp, h⟩

section Rights

variable (conv : ConversationId) (u : UserId)

/-- The user is an owner or an admin of the conversation. -/
def Manager (db : Database) : Prop :=
  ∃ m, ConversationRepository.getMember conv u db = some m ∧ (m.role = .owner ∨ m.role = .admin)

/-- The user takes part, and in a channel that is not open to everyone is an owner or an admin. -/
structure MayPost (es : List Ev) : Prop where
  participant : Sometime (fun s => ConversationRepository.isUserInConversation conv u s.db) es
  poster : ∃ r, Sometime (fun s => ConversationRepository.findById conv s.db = some r) es ∧
    (r.type = .channel → RelayService.everyoneMayPost r.policyBlob ∨
      Sometime (fun s => Manager conv u s.db) es)

/-- The conversation is a group, and the user manages it. -/
structure MayManage (es : List Ev) : Prop where
  group : Sometime (fun s => ∃ r, ConversationRepository.findById conv s.db = some r ∧
    r.type = .group) es
  manager : Sometime (fun s => Manager conv u s.db) es

/-- The conversation delivers to the user: a channel to its subscribers, any other one to its
members. -/
inductive Recipient (es : List Ev) : Prop
  | subscriber {r : ConversationRecord}
      (hconv : Sometime (fun s => ConversationRepository.findById conv s.db = some r) es)
      (htype : r.type = .channel)
      (h : Sometime (fun s => u ∈ ConversationRepository.getSubscribers conv s.db) es)
  | member {r : ConversationRecord}
      (hconv : Sometime (fun s => ConversationRepository.findById conv s.db = some r) es)
      (htype : r.type ≠ .channel)
      (h : Sometime (fun s => ∃ m ∈ ConversationRepository.getMembers conv s.db, m.userId = u) es)

/-- An envelope goes to the device: one of a recipient that is not revoked, and not the sender's. -/
structure Addressed (q : QueuedEnvelope) (d : DeviceId) (es : List Ev) : Prop where
  recipient : Recipient q.conversationId u es
  device : Sometime (fun s => ∃ r ∈ DeviceRepository.getDevicesForUser u s.db,
    r.deviceId = d ∧ r.revokedAt = none) es
  other : (u, d) ≠ (q.senderUserId, q.senderDeviceId)

def Founded (es : List Ev) : Prop :=
  ∃ ev ∈ es, ∃ r, ev.call = .conversations (.createConversation r) ∧ r.conversationId = conv ∧
    r.createdBy = u ∧ (ConversationRepository.createConversation r ev.pre.db).1 = .ok ()

variable {conv u}

theorem MayPost.stable : Stable (MayPost conv u) := by
  intro es es' hsub h
  obtain ⟨r, hr, hchannel⟩ := h.poster
  exact ⟨.stable hsub h.participant, r, .stable hsub hr,
    fun ht => (hchannel ht).imp_right fun hm => .stable hsub hm⟩

theorem Recipient.stable : Stable (Recipient conv u) := by
  intro es es' hsub h
  cases h with
  | subscriber hconv htype h => exact .subscriber (.stable hsub hconv) htype (.stable hsub h)
  | member hconv htype h => exact .member (.stable hsub hconv) htype (.stable hsub h)

theorem Addressed.stable {q : QueuedEnvelope} {d : DeviceId} : Stable (Addressed u q d) :=
  fun _ _ hsub h => ⟨.stable hsub h.recipient, .stable hsub h.device, h.other⟩

theorem MayManage.stable : Stable (MayManage conv u) :=
  fun _ _ hsub h => ⟨.stable hsub h.group, .stable hsub h.manager⟩

theorem Founded.stable : Stable (Founded conv u) := by
  rintro es es' hsub ⟨ev, hev, hr⟩
  exact ⟨ev, hsub hev, hr⟩

end Rights

variable (cfg : ServerConfig) (req : IncomingRequest) (draws : Draws)

def HasBody (o : List (String × Json)) : Prop := parseBody cfg req.toHttpRequest = .ok o

/-- The calls of a request with a session, after the calls that its handler has made. -/
inductive Acts (sess : SessionRecord) (es : List Ev) : Call → Prop
  | quiet {c : Call} (hc : c.quiet) : Acts sess es c
  | logout {now : Timestamp} : Acts sess es (.sessions (.revokeSession sess.sessionId now))
  | changePassword {o : List (String × Json)} {hashed : HashResult} (ho : HasBody cfg req o)
      (hhash : PasswordHasher.hash cfg draws.salt (jsonField o "new_password_derived_value") =
        .ok hashed)
      (hold : Sometime (fun s => ∃ user, UserRepository.findById sess.userId s.db = some user ∧
        PasswordHasher.verify cfg (jsonField o "current_password_derived_value")
          user.passwordSalt user.passwordVerifier) es) :
      Acts sess es (.users (.updatePasswordCredentials sess.userId hashed.salt hashed.verifier))
  | keyBundle {b : SyncKeyBundleRecord} : Acts sess es (.users (.setSyncKeyBundle sess.userId b))
  | send {e : EnvelopeRecord} (hu : e.senderUserId = sess.userId)
      (hd : e.senderDeviceId = sess.deviceId) (hmay : MayPost e.conversationId sess.userId es) :
      Acts sess es (.envelopes (.storeEnvelope e))
  | enqueue {u : UserId} {d : DeviceId} {q : QueuedEnvelope} (hu : q.senderUserId = sess.userId)
      (hd : q.senderDeviceId = sess.deviceId) (hmay : MayPost q.conversationId sess.userId es)
      (hto : Addressed u q d es) : Acts sess es (.delivery (.enqueue u d q))
  | addDeliveryState {u : UserId} {d : DeviceId} {q : QueuedEnvelope} {now : Timestamp}
      (hu : q.senderUserId = sess.userId) (hd : q.senderDeviceId = sess.deviceId)
      (hmay : MayPost q.conversationId sess.userId es) (hto : Addressed u q d es) :
      Acts sess es (.envelopes (.addDeliveryState q.envelopeId u d now))
  | ack {i : EnvelopeId} {now : Timestamp} :
      Acts sess es (.envelopes (.markAcked i sess.userId sess.deviceId now))
  | create {r : ConversationRecord} (hr : r.createdBy = sess.userId)
      (hid : r.conversationId = draws.uuid) : Acts sess es (.conversations (.createConversation r))
  | foundMember {u : UserId} {role : MemberRole} {now : Timestamp}
      (h : Founded draws.uuid sess.userId es) :
      Acts sess es (.conversations (.addMember draws.uuid u role now))
  | foundSubscriber {u : UserId} {now : Timestamp} (h : Founded draws.uuid sess.userId es) :
      Acts sess es (.conversations (.subscribe draws.uuid u now))
  | addMember {conv : ConversationId} {u : UserId} {role : MemberRole} {now : Timestamp}
      (h : MayManage conv sess.userId es) :
      Acts sess es (.conversations (.addMember conv u role now))
  | removeMember {conv : ConversationId} {u : UserId} {now : Timestamp}
      (h : MayManage conv sess.userId es) :
      Acts sess es (.conversations (.removeMember conv u now))
  | subscribe {conv : ConversationId} {now : Timestamp} :
      Acts sess es (.conversations (.subscribe conv sess.userId now))
  | unsubscribe {conv : ConversationId} {now : Timestamp} :
      Acts sess es (.conversations (.unsubscribe conv sess.userId now))
  | dropDelivery {conv : ConversationId} {u : UserId}
      (h : u = sess.userId ∨ MayManage conv sess.userId es) :
      Acts sess es (.envelopes (.deletePendingDeliveryForUserInConversation conv u))
  | purgeQueue {conv : ConversationId} {u : UserId} {d : DeviceId} :
      Acts sess es (.delivery (.purgeConversationFromDeviceQueue conv u d))
  | prekeys {ks : List PrekeyRecord} :
      Acts sess es (.devices (.storePrekeys sess.userId sess.deviceId ks))
  | signedPrekey {key signature : String} {now : Timestamp} :
      Acts sess es (.devices (.updateSignedPrekey sess.userId sess.deviceId key signature now))
  | revokeDevice {target : DeviceId} {now : Timestamp} (h : target ≠ sess.deviceId) :
      Acts sess es (.devices (.revokeDevice sess.userId target now))
  | revokeSessions {target : DeviceId} {now : Timestamp} (h : target ≠ sess.deviceId) :
      Acts sess es (.sessions (.revokeAllForDevice sess.userId target now))
  | upload {r : AttachmentRecord} (hu : r.userId = sess.userId)
      (hin : Sometime (fun s =>
        ConversationRepository.isUserInConversation r.conversationId sess.userId s.db) es) :
      Acts sess es (.attachments (.createAttachmentMeta r))
  | chunk {path data : String} {offset : ℤ} : Acts sess es (.blobs (.write path offset data))
  | finalize {i : AttachmentId} {hash : String} :
      Acts sess es (.attachments (.markUploadComplete i hash))
  | putRecord {collection recordId ciphertext hash : String} {version : Int32}
      {updated now : Timestamp} :
      Acts sess es (.syncState (.upsertRecord sess.userId collection recordId ciphertext hash
        version updated now))
  | deleteRecord {collection recordId : String} {version : Int32} {updated now : Timestamp} :
      Acts sess es (.syncState (.tombstoneRecord sess.userId collection recordId version updated
        now))

/-- A request has identified a user: it has created the account itself, or it has the password. -/
inductive Identified (es : List Ev) : UserId → Prop
  | registered {r : UserRecord} (h : ∃ ev ∈ es, ev.call = .users (.createUser r) ∧
      (UserRepository.createUser r ev.pre.db).1 = .ok ()) (hid : r.userId = draws.uuid) :
      Identified es r.userId
  | password {o : List (String × Json)} {user : UserRecord} (ho : HasBody cfg req o)
      (hfound : Sometime (fun s =>
        UserRepository.findByUsername (jsonField o "username") s.db = some user) es)
      (henabled : user.disabledAt = none)
      (hverified : PasswordHasher.verify cfg (jsonField o "password_derived_value")
        user.passwordSalt user.passwordVerifier) : Identified es user.userId

/-- What a request without a session speaks for a user on a device with: it has identified the
user, or it has a refresh token of the device. -/
inductive SpeaksFor (es : List Ev) : UserId → DeviceId → Prop
  | identified {u : UserId} {d : DeviceId} (h : Identified cfg req draws es u) : SpeaksFor es u d
  | refreshToken {o : List (String × Json)} {old : SessionRecord} (ho : HasBody cfg req o)
      (hfound : Sometime (fun s => SessionRepository.findByRefreshToken
        (TokenManager.hashToken cfg (jsonField o "refresh_token")) s.db = some old) es)
      (hunexpired : Sometime (fun s => s.clock < old.refreshExpiresAt) es)
      (hdevice : old.deviceId = jsonField o "device_id") :
      SpeaksFor es old.userId (jsonField o "device_id")

/-- The calls of registration, login and refresh, after those they have made. -/
inductive Enters (es : List Ev) : Call → Prop
  | quiet {c : Call} (hc : c.reads) : Enters es c
  | createUser {o : List (String × Json)} {r : UserRecord} {hashed : HashResult}
      (ho : HasBody cfg req o) (hid : r.userId = draws.uuid)
      (hhash : PasswordHasher.hash cfg draws.salt (jsonField o "password_derived_value") =
        .ok hashed) (hsalt : r.passwordSalt = hashed.salt)
      (hverifier : r.passwordVerifier = hashed.verifier) : Enters es (.users (.createUser r))
  | registerDevice {d : DeviceRecord} (h : SpeaksFor cfg req draws es d.userId d.deviceId) :
      Enters es (.devices (.registerDevice d))
  | updateLastSeen {u : UserId} {d : DeviceId} {now : Timestamp}
      (h : SpeaksFor cfg req draws es u d) : Enters es (.devices (.updateLastSeen u d now))
  | createSession {u : UserId} {d : DeviceId} {now : Timestamp}
      (h : SpeaksFor cfg req draws es u d) :
      Enters es (.sessions (.createSession (TokenManager.newSession cfg u d now draws.fresh)))
  | rotate {o : List (String × Json)} {old : SessionRecord} {now : Timestamp}
      (ho : HasBody cfg req o)
      (hfound : Sometime (fun s => SessionRepository.findByRefreshToken
        (TokenManager.hashToken cfg (jsonField o "refresh_token")) s.db = some old) es)
      (h : SpeaksFor cfg req draws es old.userId (jsonField o "device_id")) :
      Enters es (.sessions (.revokeSession old.sessionId now))

/-- The access token belonged to the session, which had not expired. -/
structure ValidToken (token : String) (sess : SessionRecord) (es : List Ev) : Prop where
  found : Sometime (fun s =>
    SessionRepository.findByAccessToken (TokenManager.hashToken cfg token) s.db = some sess) es
  unexpired : Sometime (fun s => s.clock < sess.accessExpiresAt) es

def SignedIn (sess : SessionRecord) (es : List Ev) : Prop :=
  ∃ token, parseBearer req = some token ∧ ValidToken cfg token sess es

/-- The calls that a request may make after the calls that it has made. -/
inductive Permitted (es : List Ev) : Call → Prop
  | quiet {c : Call} (hc : c.reads) : Permitted es c
  | enters {es₁ es₂ : List Ev} {c : Call} (hes : es = es₁ ++ es₂)
      (h : Enters cfg req draws es₂ c) : Permitted es c
  | acts {es₁ es₂ : List Ev} {sess : SessionRecord} {c : Call} (hes : es = es₁ ++ es₂)
      (hsess : SignedIn cfg req sess es₁) (h : Acts cfg req draws sess es₂ c) : Permitted es c
  | deleteUser {u : UserId} (hset : cfg.adminToken ≠ "")
      (htoken : req.xAdminToken = some cfg.adminToken) :
      Permitted es (.admin (.deleteUserRows u))

/-- The program makes its calls under the condition, and ends with the calls it has made. -/
def Does {α : Type} (K : List Ev → Call → Prop) (Post : List Ev → α → Prop) (p : ServerProg α)
    (es : List Ev) : Prop :=
  p.Spec (Call.exec cfg) (fun _ => True) (fun es ev => K es ev.call) Post es

variable {cfg req draws}

theorem Identified.stable {u : UserId} : Stable (Identified cfg req draws · u) := by
  intro es es' hsub h
  cases h with
  | registered h hid =>
    obtain ⟨ev, hev, hr⟩ := h
    exact .registered ⟨ev, hsub hev, hr⟩ hid
  | password ho hfound henabled hverified =>
    exact .password ho (.stable hsub hfound) henabled hverified

theorem SpeaksFor.stable {u : UserId} {d : DeviceId} :
    Stable (SpeaksFor cfg req draws · u d) := by
  intro es es' hsub h
  cases h with
  | identified h => exact .identified (.stable hsub h)
  | refreshToken ho hfound hunexpired hdevice =>
    exact .refreshToken ho (.stable hsub hfound) (.stable hsub hunexpired) hdevice

theorem ValidToken.stable {token : String} {sess : SessionRecord} :
    Stable (ValidToken cfg token sess) :=
  fun _ _ hsub h => ⟨.stable hsub h.found, .stable hsub h.unexpired⟩

theorem SignedIn.stable {sess : SessionRecord} : Stable (SignedIn cfg req sess) := by
  rintro es es' hsub ⟨token, htoken, hvalid⟩
  exact ⟨token, htoken, .stable hsub hvalid⟩

section Rules

variable {α β : Type} {K : List Ev → Call → Prop} {es : List Ev}

theorem does_ask_bind {Post : List Ev → β → Prop} {c : Call} {f : c.Reply → ServerProg β}
    (hc : K es c)
    (hf : ∀ i s, Does cfg K Post (f (c.exec cfg s).1) (es ++ [⟨i, c, s⟩])) :
    Does cfg K Post (ask c >>= f) es :=
  spec_perform_bind.mpr fun i s _ => ⟨hc, hf i s⟩

theorem does_ask_keep {Post : List Ev → β → Prop} {I : List Ev → Prop} {c : Call}
    {f : c.Reply → ServerProg β} (hI : Stable I) (hes : I es) (hc : K es c)
    (hf : ∀ es s, I es → Does cfg K Post (f (c.exec cfg s).1) es) :
    Does cfg K Post (ask c >>= f) es :=
  does_ask_bind hc fun _ s => hf _ s (hI (List.subset_append_left _ _) hes)

theorem does_ask {c : Call} (hc : K es c) : Does cfg K (fun _ _ => True) (ask c) es :=
  fun _ _ _ => ⟨hc, trivial⟩

theorem Does.bind {Mid : List Ev → α → Prop} {Post : List Ev → β → Prop} {p : ServerProg α}
    {f : α → ServerProg β} (hp : Does cfg K Mid p es)
    (hf : ∀ es a, Mid es a → Does cfg K Post (f a) es) : Does cfg K Post (p >>= f) es :=
  Spec.bind hp hf

theorem Does.frame {K' : List Ev → Call → Prop} {p : ServerProg α}
    (hp : Does cfg K' (fun _ _ => True) p []) (hK : ∀ es' c, K' es' c → K (es ++ es') c) :
    Does cfg K (fun _ _ => True) p es := by
  have hframe := Spec.frame (K := fun es ev => K es ev.call) hp es fun es' ev h =>
    hK es' ev.call h
  rw [List.append_nil] at hframe
  exact hframe.mono fun _ _ _ => trivial

theorem does_of_only {P : Call → Prop} {I : List Ev → Prop} {p : ServerProg α} (hp : p.Only P)
    (hI : Stable I) (hP : ∀ es c, I es → P c → K es c) (hes : I es) :
    Does cfg K (fun es _ => I es) p es :=
  Only.spec hp (fun es _ c _ hc hes => ⟨hP es c hes hc, hI (List.subset_append_left _ _) hes⟩) hes

theorem does_of_only_always {P : Call → Prop} {p : ServerProg α} (hp : p.Only P)
    (hP : ∀ es c, P c → K es c) : Does cfg K (fun _ _ => True) p es :=
  does_of_only hp (fun _ _ _ h => h) (fun es c _ => hP es c) trivial

end Rules

end VoxServer.Http
