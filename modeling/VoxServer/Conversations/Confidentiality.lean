import VoxServer.Attachments.Ownership
import VoxServer.Conversations.Channels
import VoxServer.Delivery.Participants
import VoxServer.Net.HttpServer

/-! # What a user can read

Every reading route either shows what the user owns and what all users may see, or asks
whether the user takes part in the conversation. Two lists are read without the question:
the conversations of the user and the deliveries that wait for a device. They stay
confidential because of what operations keep: whoever is listed as a member takes part,
and only participants are waited for.
-/

namespace VoxServer.Confidentiality

open Interleaving Prog Table Http ConversationRepository EnvelopeRepository AttachmentRepository
open Delivery (Addressed Owed participating single_of_participating)
open Channels (Orderly nobody)
open Uploads (Files)

section Reached

/-- The operations of the server: direct calls are those of the handlers. -/
def served : Op → Bool
  | .single (.delivery (.dequeue ..)) => true
  | .single c => c.tame
  | _ => true

/-- The state is reached from an empty server by operations that run one after another. Either no
queue of a device is stored in between, or no envelope and no user is deleted. -/
def Reached (cfg : ServerConfig) (s : Server) : Prop :=
  ∃ acts : List (Op ⊕ Timestamp), Machine.run (voxServer cfg).atOnce {} acts = some s ∧
    ((∀ o, .inl o ∈ acts → served o) ∨ ∀ o, .inl o ∈ acts → participating o)

/-- What a state between operations is like. -/
structure Settled (cfg : ServerConfig) (s : Server) : Prop where
  addressed : ∃ K, Addressed K Owed.nothing s
  orderly : Orderly nobody s
  files : Files cfg s.db

variable {cfg : ServerConfig} {s : Server}

theorem single_of_served {c : Call} (h : served (.single c)) :
    c.tame ∨ ∃ u d n, c = .delivery (.dequeue u d n) := by
  unfold served at h
  split at h
  case h_1 hc => cases hc; exact .inr ⟨_, _, _, rfl⟩
  case h_2 hc => cases hc; exact .inl h
  case h_3 hc => exact absurd rfl (hc c)

theorem ends_in_order {o : Op} (ho : ∀ c, o = .single c → c.tame ∨ ∃ a, c = .delivery a)
    (h : Orderly nobody s ∧ Files cfg s.db) :
    (o.code cfg).Ends (Call.exec cfg) (fun _ s' => Orderly nobody s' ∧ Files cfg s'.db)
      s := by
  refine ⟨h.1.perform ho, ?_⟩
  refine (Uploads.only_files ?_).ends (I := fun s : Server => Files cfg s.db)
    (fun c s hc h => h.call hc) h.2
  unfold Uploads.viaService
  split
  · rcases ho _ rfl with hc | ⟨a, ha⟩
    · cases hc
    · cases ha
  · rfl

theorem settled_of_run {K : Prop} {p : Op → Bool} {acts : List (Op ⊕ Timestamp)}
    (hp : ∀ o, .inl o ∈ acts → p o)
    (hs : ∀ c, p (.single c) → c.tame ∨ ∃ a, c = .delivery a)
    (hop : ∀ o s, p o → Addressed K Owed.nothing s →
      (o.code cfg).Ends (Call.exec cfg) (fun _ => Addressed K Owed.nothing) s)
    (hrun : Machine.run (voxServer cfg).atOnce {} acts = some s) : Settled cfg s := by
  let I := fun s => Addressed K Owed.nothing s ∧ Orderly nobody s ∧ Files cfg s.db
  have h0 : I {} := by
    have hv : ({} : Server).db.Valid := by decide
    exact ⟨⟨hv, fun _ => by decide, fun _ => by simp, by simp⟩, ⟨hv, by simp [Channels.Staffed]⟩,
      by simp [Files]⟩
  have h : I s := by
    refine (voxServer cfg).atOnce_invariant (p := fun _ => Sum.elim p fun _ => true)
      (fun s o h ho => ?_) (fun s t h => ?_) h0 hrun ?_
    · exact ⟨hop o s ho h.1, ends_in_order (fun c hc => hs c (hc ▸ ho)) h.2⟩
    · exact ⟨⟨h.1.1, h.1.2, h.1.3, h.1.4⟩, ⟨h.2.1.1, h.2.1.2⟩, h.2.2⟩
    · refine Machine.always_of_forall _ (fun a ha _ => ?_) _
      cases a with
      | inl o => exact hp o ha
      | inr t => rfl
  exact ⟨⟨K, h.1⟩, h.2.1, h.2.2⟩

theorem Reached.settled (h : Reached cfg s) : Settled cfg s := by
  obtain ⟨acts, hrun, hserved | hpart⟩ := h
  · refine settled_of_run (K := False) hserved ?_ (fun o s ho h => h.perform ?_ ?_ ?_) hrun
    · intro c hc
      exact (single_of_served hc).imp_right fun ⟨_, _, _, hd⟩ => ⟨_, hd⟩
    · rintro c rfl
      exact (single_of_served ho).imp_right .inl
    · exact fun _ _ _ _ _ _ => False.elim
    · exact False.elim
  · refine settled_of_run (K := True) hpart ?_ (fun o s ho h => h.participating ho) hrun
    intro c hc
    rcases single_of_participating hc with hc | ⟨_, _, _, hd⟩ | ⟨_, _, hd⟩
    · exact .inl hc
    · exact .inr ⟨_, hd⟩
    · exact .inr ⟨_, hd⟩

end Reached

section Relation

/-- The row of a user in a conversation is the reader's own, or the reader takes part. -/
def shown (u : UserId) (db : Database) (c : ConversationId) (owner : UserId) : Bool :=
  owner = u || isUserInConversation c u db

/-- The upload without its hash, if the reader does not take part in its conversation. -/
def redacted (u : UserId) (db : Database) (a : AttachmentRecord) : AttachmentRecord :=
  if isUserInConversation a.conversationId u db then a else { a with ciphertextHash := "" }

/-- The states agree except on conversations that the user does not take part in, and there on all
but the envelopes, the bytes and hashes of attachments and the rows of other users. -/
structure Alike (u : UserId) (s₁ s₂ : Server) : Prop where
  clock : s₁.clock = s₂.clock
  users : s₁.db.users = s₂.db.users
  devices : s₁.db.devices = s₂.db.devices
  prekeys : s₁.db.oneTimePrekeys = s₂.db.oneTimePrekeys
  conversations : s₁.db.conversations = s₂.db.conversations
  sync : s₁.db.syncRecords = s₂.db.syncRecords
  members : s₁.db.conversationMembers.filter (fun m => shown u s₁.db m.conversationId m.userId) =
    s₂.db.conversationMembers.filter fun m => shown u s₂.db m.conversationId m.userId
  subscriptions :
    s₁.db.channelSubscriptions.filter (fun r => shown u s₁.db r.conversationId r.userId) =
      s₂.db.channelSubscriptions.filter fun r => shown u s₂.db r.conversationId r.userId
  envelopes : s₁.db.encryptedEnvelopes.filter (isUserInConversation ·.conversationId u s₁.db) =
    s₂.db.encryptedEnvelopes.filter (isUserInConversation ·.conversationId u s₂.db)
  delivery : s₁.db.deliveryState.filter (·.targetUserId = u) =
    s₂.db.deliveryState.filter (·.targetUserId = u)
  attachments : s₁.db.attachmentMetadata.map (redacted u s₁.db) =
    s₂.db.attachmentMetadata.map (redacted u s₂.db)
  blobs : ∀ path, (∀ a ∈ s₁.db.attachmentMetadata, a.blobPath = path →
    isUserInConversation a.conversationId u s₁.db) → s₁.blobs path = s₂.blobs path

variable {cfg : ServerConfig} {u : UserId} {s₁ s₂ : Server} {c : ConversationId}

theorem Alike.own_member (h : Alike u s₁ s₂) (c : ConversationId) :
    s₁.db.conversationMembers.filter (fun m => m.key = (c, u) ∧ m.removedAt = none) =
      s₂.db.conversationMembers.filter fun m => m.key = (c, u) ∧ m.removedAt = none := by
  have hown : ∀ m : MemberRecord, m.key = (c, u) ∧ m.removedAt = none → m.userId = u :=
    fun m hm => (Prod.mk.inj hm.1).2
  refine filter_eq_of_filter_eq h.members (fun m _ hm => ?_) fun m _ hm => ?_
  · simp [shown, hown m (of_decide_eq_true hm)]
  · simp [shown, hown m (of_decide_eq_true hm)]

theorem Alike.own_subscription (h : Alike u s₁ s₂) (c : ConversationId) :
    s₁.db.channelSubscriptions.filter (fun r => r.key = (c, u) ∧ r.unsubscribedAt = none) =
      s₂.db.channelSubscriptions.filter fun r => r.key = (c, u) ∧ r.unsubscribedAt = none := by
  have hown : ∀ r : SubscriptionRow, r.key = (c, u) ∧ r.unsubscribedAt = none → r.userId = u :=
    fun r hr => (Prod.mk.inj hr.1).2
  refine filter_eq_of_filter_eq h.subscriptions (fun r _ hr => ?_) fun r _ hr => ?_
  · simp [shown, hown r (of_decide_eq_true hr)]
  · simp [shown, hown r (of_decide_eq_true hr)]

theorem Alike.inConversation (h : Alike u s₁ s₂) (c : ConversationId) :
    isUserInConversation c u s₁.db = isUserInConversation c u s₂.db := by
  simp only [isUserInConversation, ConversationRepository.findById, h.conversations,
    ← List.isSome_find?, ← List.head?_filter, h.own_member, h.own_subscription]

theorem Alike.getMember (h : Alike u s₁ s₂) (c : ConversationId) :
    getMember c u s₁.db = getMember c u s₂.db := by
  simp only [ConversationRepository.getMember, ← List.head?_filter, h.own_member]

section Shown

variable (h : Alike u s₁ s₂) (hc : isUserInConversation c u s₁.db)
include h hc

theorem Alike.getMembers : getMembers c s₁.db = getMembers c s₂.db := by
  refine congrArg (List.insertionSort _) ?_
  refine filter_eq_of_filter_eq h.members (fun m _ hm => ?_) fun m _ hm => ?_
  · simp at hm
    simp [shown, hm.1, hc]
  · simp at hm
    simp [shown, hm.1, ← h.inConversation, hc]

theorem Alike.getSubscribers : getSubscribers c s₁.db = getSubscribers c s₂.db := by
  refine congrArg (List.map _ ∘ List.insertionSort _) ?_
  refine filter_eq_of_filter_eq h.subscriptions (fun r _ hr => ?_) fun r _ hr => ?_
  · simp at hr
    simp [shown, hr.1, hc]
  · simp at hr
    simp [shown, hr.1, ← h.inConversation, hc]

theorem Alike.conversationRows : conversationRows c s₁.db = conversationRows c s₂.db := by
  refine filter_eq_of_filter_eq h.envelopes (fun e _ he => ?_) fun e _ he => ?_
  · rwa [of_decide_eq_true he]
  · rwa [of_decide_eq_true he, ← h.inConversation]

theorem Alike.lastActivityAt : lastActivityAt c s₁.db = lastActivityAt c s₂.db :=
  congrArg (fun rows => (rows.map EnvelopeRecord.serverTimestamp).max?) (h.conversationRows hc)

end Shown

theorem Settled.inConversation {s : Server} (hs : Settled cfg s) {m : MemberRecord}
    (hm : m ∈ s.db.conversationMembers) (ho : m.removedAt = none) :
    isUserInConversation m.conversationId m.userId s.db := by
  have hv := hs.orderly.valid
  obtain ⟨r, hr, hid⟩ := hv.members_conversation m hm
  refine (isUserInConversation_iff hv).mpr ⟨r, hr, hid, ?_⟩
  cases ht : r.type with
  | channel => exact (hs.orderly.staffed m hm ho r hr hid ht).2.resolve_right id
  | dm => exact ⟨m, hm, rfl, ho⟩
  | group => exact ⟨m, hm, rfl, ho⟩

theorem Settled.mem_getConversationsForUser {s : Server} (hs : Settled cfg s)
    {r : ConversationRecord} {t : Option Timestamp}
    (hr : (r, t) ∈ getConversationsForUser u s.db) :
    isUserInConversation r.conversationId u s.db := by
  simp only [getConversationsForUser, List.mem_flatMap, List.mem_map, List.mem_filter,
    decide_eq_true_eq] at hr
  obtain ⟨r', -, m, ⟨hm, hk, ho⟩, he⟩ := hr
  cases he
  obtain ⟨hc, hu⟩ : m.conversationId = r.conversationId ∧ m.userId = u := Prod.mk.inj hk
  rw [← hc, ← hu]
  exact hs.inConversation hm ho

theorem Settled.inConversation_of_delivery {s : Server} (hs : Settled cfg s)
    {d : DeliveryStateRecord} {e : EnvelopeRecord} (hd : d ∈ s.db.deliveryState)
    (he : e ∈ s.db.encryptedEnvelopes) (hid : e.envelopeId = d.envelopeId) :
    isUserInConversation e.conversationId d.targetUserId s.db := by
  obtain ⟨K, ha⟩ := hs.addressed
  exact (ha.rows d hd e he hid).resolve_right id

variable (h : Alike u s₁ s₂) (h₁ : Settled cfg s₁) (h₂ : Settled cfg s₂)
include h h₁

theorem Alike.getConversationsForUser :
    getConversationsForUser u s₁.db = getConversationsForUser u s₂.db := by
  unfold ConversationRepository.getConversationsForUser
  rw [← h.conversations]
  refine List.flatMap_congr fun c _ => ?_
  rw [← h.own_member c.conversationId]
  refine List.map_congr_left fun m hm => ?_
  obtain ⟨hm, hp⟩ := List.mem_filter.mp hm
  obtain ⟨hk, ho⟩ := of_decide_eq_true hp
  obtain ⟨hc, hu⟩ : m.conversationId = c.conversationId ∧ m.userId = u := Prod.mk.inj hk
  rw [h.lastActivityAt (hc ▸ hu ▸ h₁.inConversation hm ho)]

include h₂

theorem Alike.pendingRows (d : DeviceId) : pendingRows u d s₁.db = pendingRows u d s₂.db := by
  have hshown : ∀ {s : Server}, Settled cfg s → ∀ e ∈ s.db.encryptedEnvelopes,
      ((s.db.deliveryState.filter fun r => r.key = (e.envelopeId, u, d) ∧
        r.deliveredAt = none ∧ r.ackedAt = none).map fun _ => e) ≠ [] →
      isUserInConversation e.conversationId u s.db := by
    intro s hs e he hne
    obtain ⟨_, he'⟩ := List.exists_mem_of_ne_nil _ hne
    obtain ⟨r, hr, -⟩ := List.mem_map.mp he'
    obtain ⟨hr, hp⟩ := List.mem_filter.mp hr
    obtain ⟨hk, -⟩ := of_decide_eq_true hp
    have hid : r.envelopeId = e.envelopeId := congrArg Prod.fst hk
    have hu : r.targetUserId = u := congrArg (Prod.fst ∘ Prod.snd) hk
    exact hu ▸ hs.inConversation_of_delivery hr he hid.symm
  have hrows : ∀ e : EnvelopeRecord,
      (s₁.db.deliveryState.filter fun r => r.key = (e.envelopeId, u, d) ∧
        r.deliveredAt = none ∧ r.ackedAt = none) =
      s₂.db.deliveryState.filter fun r => r.key = (e.envelopeId, u, d) ∧
        r.deliveredAt = none ∧ r.ackedAt = none := by
    intro e
    have hown : ∀ r : DeliveryStateRecord, r.key = (e.envelopeId, u, d) ∧
        r.deliveredAt = none ∧ r.ackedAt = none → r.targetUserId = u :=
      fun r hr => congrArg (Prod.fst ∘ Prod.snd) hr.1
    exact filter_eq_of_filter_eq h.delivery (fun r _ hr => by simp [hown r (of_decide_eq_true hr)])
      fun r _ hr => by simp [hown r (of_decide_eq_true hr)]
  unfold EnvelopeRepository.pendingRows
  rw [← flatMap_filter_eq (hshown h₁), ← flatMap_filter_eq (hshown h₂), h.envelopes]
  exact List.flatMap_congr fun e _ => by rw [hrows e]

end Relation

section Attachments

variable {cfg : ServerConfig} {u : UserId} {s₁ s₂ : Server}

theorem redacted_frame (db : Database) (a : AttachmentRecord) :
    (redacted u db a).attachmentId = a.attachmentId ∧
      (redacted u db a).conversationId = a.conversationId ∧
      (redacted u db a).uploadComplete = a.uploadComplete := by
  unfold redacted
  split <;> exact ⟨rfl, rfl, rfl⟩

theorem Alike.attachment (h : Alike u s₁ s₂) (i : AttachmentId) :
    (getAttachmentMeta i s₁.db).map (redacted u s₁.db) =
      (getAttachmentMeta i s₂.db).map (redacted u s₂.db) := by
  have hfind : ∀ s : Server, (getAttachmentMeta i s.db).map (redacted u s.db) =
      (s.db.attachmentMetadata.map (redacted u s.db)).find? (·.attachmentId = i) := by
    intro s
    simp only [List.find?_map, Function.comp_def, (redacted_frame _ _).1, getAttachmentMeta]
  rw [hfind, hfind, h.attachments]

theorem Alike.eq_of_redacted (h : Alike u s₁ s₂) {a₁ a₂ : AttachmentRecord}
    (he : redacted u s₁.db a₁ = redacted u s₂.db a₂) :
    a₁.conversationId = a₂.conversationId ∧ a₁.uploadComplete = a₂.uploadComplete ∧
      (isUserInConversation a₁.conversationId u s₁.db → a₁ = a₂) := by
  obtain ⟨-, hc₁, hu₁⟩ := redacted_frame (u := u) s₁.db a₁
  obtain ⟨-, hc₂, hu₂⟩ := redacted_frame (u := u) s₂.db a₂
  have hc : a₁.conversationId = a₂.conversationId := by rw [← hc₁, he, hc₂]
  refine ⟨hc, by rw [← hu₁, he, hu₂], fun hin => ?_⟩
  rw [redacted, if_pos hin, redacted, if_pos (by rwa [← hc, ← h.inConversation])] at he
  exact he

theorem Alike.blob (h : Alike u s₁ s₂) (h₁ : Settled cfg s₁) {a : AttachmentRecord}
    (ha : a ∈ s₁.db.attachmentMetadata) (hc : isUserInConversation a.conversationId u s₁.db) :
    s₁.blobs a.blobPath = s₂.blobs a.blobPath := by
  refine h.blobs _ fun b hb hpath => ?_
  by_cases hid : b.attachmentId = a.attachmentId
  · rwa [h₁.orderly.valid.attachments_pk.eq_of_mem hb ha hid]
  · exact absurd hpath.symm (h₁.files.ne ha hb hid)

end Attachments

section Routes

variable {cfg : ServerConfig} {s₁ s₂ : Server} {sess : SessionRecord} {req : HttpRequest}

abbrev anyStates : Server → Server → Prop := fun _ _ => True

theorem run_getAttachment (i : AttachmentId) (s : Server) :
    ((Http.getAttachment sess req i).run (Call.exec cfg) s).1 =
      match getAttachmentMeta i s.db with
      | none => serviceError req.version ⟨.notFound, "Attachment not found"⟩
      | some a =>
        if !a.uploadComplete then
          serviceError req.version ⟨.notFound, "Attachment upload not complete"⟩
        else if !isUserInConversation a.conversationId sess.userId s.db then
          serviceError req.version ⟨.forbidden, "Not authorized to access this attachment"⟩
        else
          match s.blobs a.blobPath with
          | none => serviceError req.version ⟨.internal, "Cannot open attachment blob"⟩
          | some bytes => .response ⟨req.version, 200, .file bytes⟩ := by
  unfold Http.getAttachment AttachmentService.getAttachment
  simp only [run_bind, Prog.perform_bind, run_call, Call.exec, Call.onDb, AttachmentCall.exec]
  cases getAttachmentMeta i s.db with
  | none => rfl
  | some a =>
    dsimp only
    cases a.uploadComplete with
    | false => rfl
    | true =>
      simp only [Bool.not_true, Bool.false_eq_true, if_false, run_call, Call.exec, Call.onDb,
        ConversationCall.exec]
      by_cases hin : isUserInConversation a.conversationId sess.userId s.db
      · simp only [hin, Bool.not_true, Bool.false_eq_true, if_false, pure_eq_ret, run_ret, run_call,
          Call.exec, BlobCall.exec]
        cases s.blobs a.blobPath <;> rfl
      · simp only [hin, Bool.not_false, if_true, pure_eq_ret, run_ret]

section Prekeys

/-- The states agree on the devices and their prekeys. -/
structure SameDevices (s₁ s₂ : Server) : Prop where
  clock : s₁.clock = s₂.clock
  devices : s₁.db.devices = s₂.db.devices
  prekeys : s₁.db.oneTimePrekeys = s₂.db.oneTimePrekeys

variable (cfg) in
theorem SameDevices.bundle (h : SameDevices s₁ s₂) (u : UserId) (d : DeviceId) :
    (Call.exec cfg (.devices (.getPrekeyBundle u d)) s₁).1 =
      (Call.exec cfg (.devices (.getPrekeyBundle u d)) s₂).1 ∧
    SameDevices (Call.exec cfg (.devices (.getPrekeyBundle u d)) s₁).2
      (Call.exec cfg (.devices (.getPrekeyBundle u d)) s₂).2 := by
  obtain ⟨hr, hd, hp⟩ :=
    DeviceRepository.getPrekeyBundle_congr h.devices h.prekeys u d s₁.clock
  have hclock := h.clock
  simp only [Call.exec, Call.onDb, DeviceCall.exec]
  rw [← h.clock]
  exact ⟨hr, rfl, hd, hp⟩

theorem SameDevices.collectBundles (h : SameDevices s₁ s₂) (u : UserId) (ds : List DeviceRecord) :
    (Http.collectBundles u ds).Agrees (Call.exec cfg) anyStates s₁ s₂ := by
  induction ds generalizing s₁ s₂ with
  | nil => exact agrees_ret trivial
  | cons d ds ih =>
    unfold Http.collectBundles
    split
    · exact ih h
    · obtain ⟨hreply, hafter⟩ := h.bundle cfg u d.deviceId
      refine Agrees.perform_bind hreply ?_
      split
      · exact ih hafter
      · exact (ih hafter).bind fun _ _ _ _ => agrees_ret trivial

theorem SameDevices.getPrekeyBundle (h : SameDevices s₁ s₂) (u : UserId) (d : DeviceId) :
    (Http.getPrekeyBundle req u d).Agrees (Call.exec cfg) anyStates s₁ s₂ := by
  refine Agrees.perform_bind (h.bundle cfg u d).1 ?_
  split <;> exact agrees_ret trivial

end Prekeys

variable (h : Alike sess.userId s₁ s₂)
include h

theorem Alike.sameDevices : SameDevices s₁ s₂ := ⟨h.clock, h.devices, h.prekeys⟩

theorem Alike.findUser (i : UserId) :
    UserRepository.findById i s₁.db = UserRepository.findById i s₂.db := by
  simp only [UserRepository.findById, h.users]

theorem Alike.profiles (ids : List UserId) :
    UserRepository.findPublicProfilesByIds ids s₁.db =
      UserRepository.findPublicProfilesByIds ids s₂.db := by
  simp only [UserRepository.findPublicProfilesByIds, h.users]

theorem Alike.devicesOf (i : UserId) :
    DeviceRepository.getDevicesForUser i s₁.db = DeviceRepository.getDevicesForUser i s₂.db := by
  simp only [DeviceRepository.getDevicesForUser, h.devices]

theorem Alike.findConversation (c : ConversationId) :
    ConversationRepository.findById c s₁.db = ConversationRepository.findById c s₂.db := by
  simp only [ConversationRepository.findById, h.conversations]

/-! Users, devices and the records of the user are the same in both states. -/

theorem Alike.getMe : (Http.getMe sess req).Agrees (Call.exec cfg) anyStates s₁ s₂ := by
  refine Agrees.perform_bind (h.findUser _) ?_
  split <;> exact agrees_ret trivial

theorem Alike.getMyDevices :
    (Http.getMyDevices sess req).Agrees (Call.exec cfg) anyStates s₁ s₂ :=
  Agrees.perform_bind (h.devicesOf _) (agrees_ret trivial)

theorem Alike.getKeyBundle :
    (Http.getKeyBundle cfg sess req).Agrees (Call.exec cfg) anyStates s₁ s₂ := by
  refine Agrees.perform_bind (congrArg (Option.map UserRecord.bundle) (h.findUser _)) ?_
  split <;> exact agrees_ret trivial

theorem Alike.getChanges : (Http.getChanges sess req).Agrees (Call.exec cfg) anyStates s₁ s₂ := by
  have hpage : ∀ coll cursor limit,
      SyncStateRepository.listChangesAfterCursor sess.userId coll cursor limit s₁.db =
        SyncStateRepository.listChangesAfterCursor sess.userId coll cursor limit s₂.db := by
    intro coll cursor limit
    simp only [SyncStateRepository.listChangesAfterCursor, SyncStateRepository.collectionRows,
      h.sync]
  unfold Http.getChanges
  dsimp only
  split
  · exact agrees_ret trivial
  · split
    · exact Agrees.perform_bind (hpage _ _ _) (agrees_ret trivial)
    · exact agrees_ret trivial

theorem Alike.getUsers : (Http.getUsers req).Agrees (Call.exec cfg) anyStates s₁ s₂ := by
  unfold Http.getUsers
  dsimp only
  split
  · exact agrees_ret trivial
  · exact Agrees.perform_bind (h.profiles _) (agrees_ret trivial)

theorem Alike.getUser (i : UserId) :
    (Http.getUser req i).Agrees (Call.exec cfg) anyStates s₁ s₂ :=
  Agrees.perform_bind (h.findUser i) (agrees_ret trivial)

theorem Alike.getUserByUsername (name : String) :
    (Http.getUserByUsername req name).Agrees (Call.exec cfg) anyStates s₁ s₂ := by
  have hfind : UserRepository.findByUsername name s₁.db =
      UserRepository.findByUsername name s₂.db := by
    simp only [UserRepository.findByUsername, h.users]
  exact Agrees.perform_bind hfind (agrees_ret trivial)

theorem Alike.getSearch : (Http.getSearch req).Agrees (Call.exec cfg) anyStates s₁ s₂ := by
  have hfound : ∀ q n, UserRepository.searchByUsernamePrefix q n s₁.db =
      UserRepository.searchByUsernamePrefix q n s₂.db := by
    intro q n
    simp only [UserRepository.searchByUsernamePrefix, h.users]
  unfold Http.getSearch
  dsimp only
  split
  · refine Agrees.perform_bind (hfound _ _) ?_
    split
    · exact agrees_ret trivial
    · exact agrees_ret trivial
  · exact agrees_ret trivial

theorem Alike.getPrekeyBundles (i : UserId) :
    (Http.getPrekeyBundles req i).Agrees (Call.exec cfg) anyStates s₁ s₂ := by
  refine Agrees.perform_bind (h.findUser i) ?_
  split
  · exact agrees_ret trivial
  · split
    · exact agrees_ret trivial
    · refine Agrees.perform_bind (h.devicesOf i) ?_
      exact (h.sameDevices.collectBundles i _).bind fun _ _ _ _ => agrees_ret trivial

theorem Alike.getPrekeyBundleOfDevice (d : DeviceId) :
    (Http.getPrekeyBundleOfDevice req d).Agrees (Call.exec cfg) anyStates s₁ s₂ := by
  have hfind : DeviceRepository.findAllByDeviceId d s₁.db =
      DeviceRepository.findAllByDeviceId d s₂.db := by
    simp only [DeviceRepository.findAllByDeviceId, h.devices]
  refine Agrees.perform_bind hfind ?_
  split
  · exact agrees_ret trivial
  · exact h.sameDevices.getPrekeyBundle _ d
  · exact agrees_ret trivial

theorem Alike.collectDevices (i : UserId) (ds : List DeviceRecord) :
    (Http.collectDevices i ds).Agrees (Call.exec cfg) anyStates s₁ s₂ := by
  have hcount : ∀ d, DeviceRepository.countAvailableOneTimePrekeys i d s₁.db =
      DeviceRepository.countAvailableOneTimePrekeys i d s₂.db := by
    intro d
    simp only [DeviceRepository.countAvailableOneTimePrekeys, h.prekeys]
  induction ds with
  | nil => exact agrees_ret trivial
  | cons d ds ih =>
    unfold Http.collectDevices
    split
    · exact ih
    · refine Agrees.perform_bind (hcount _) ?_
      exact Agrees.bind ih fun _ _ _ _ => agrees_ret trivial

theorem Alike.getDevicesOf (i : UserId) :
    (Http.getDevicesOf req i).Agrees (Call.exec cfg) anyStates s₁ s₂ := by
  refine Agrees.perform_bind (h.findUser i) ?_
  split
  · exact agrees_ret trivial
  · split
    · exact agrees_ret trivial
    · refine Agrees.perform_bind (h.devicesOf i) ?_
      exact Agrees.bind (h.collectDevices i _) fun _ _ _ _ => agrees_ret trivial

/-! The routes of one conversation ask first whether the user takes part. -/

theorem Alike.guarded {c : ConversationId} {r : Handled} {p : ServerProg Handled}
    (hp : isUserInConversation c sess.userId s₁.db →
      p.Agrees (Call.exec cfg) anyStates s₁ s₂) :
    (ask (.conversations (.isUserInConversation c sess.userId)) >>= fun reply =>
      if !reply then return r else p).Agrees (Call.exec cfg) anyStates s₁ s₂ := by
  refine Agrees.perform_bind (h.inConversation c) ?_
  change (if !isUserInConversation c sess.userId s₁.db then (return r) else p).Agrees
    (Call.exec cfg) anyStates s₁ s₂
  cases hin : isUserInConversation c sess.userId s₁.db with
  | false => exact agrees_ret trivial
  | true => exact hp hin

theorem Alike.peerFields {c : ConversationId} (hc : isUserInConversation c sess.userId s₁.db)
    (type : ConversationType) :
    (Http.peerFields sess type c).Agrees (Call.exec cfg) (fun t₁ t₂ => t₁ = s₁ ∧ t₂ = s₂)
      s₁ s₂ := by
  unfold Http.peerFields
  split
  · exact Agrees.perform_bind (h.getMembers hc) (agrees_ret ⟨rfl, rfl⟩)
  · exact agrees_ret ⟨rfl, rfl⟩

theorem Alike.getConversation (c : ConversationId) :
    (Http.getConversation cfg sess req c).Agrees (Call.exec cfg) anyStates s₁ s₂ := by
  refine Agrees.perform_bind (h.findConversation c) ?_
  split
  · exact agrees_ret trivial
  · refine h.guarded fun hc => ?_
    refine Agrees.perform_bind (h.profiles _) (Agrees.bind (h.peerFields hc _) ?_)
    rintro peer _ _ ⟨rfl, rfl⟩
    exact Agrees.perform_bind (h.getMember c) (agrees_ret trivial)

theorem Alike.groupMembers {c : ConversationId} (hc : isUserInConversation c sess.userId s₁.db) :
    (Http.groupMembers c).Agrees (Call.exec cfg) anyStates s₁ s₂ :=
  Agrees.perform_bind (h.getMembers hc) (Agrees.perform_bind (h.profiles _) (agrees_ret trivial))

theorem Alike.channelMembers {c : ConversationId} (hc : isUserInConversation c sess.userId s₁.db) :
    (Http.channelMembers sess c).Agrees (Call.exec cfg) anyStates s₁ s₂ := by
  refine Agrees.perform_bind (h.getMember c) ?_
  refine Agrees.perform_bind (h.getMembers hc) ?_
  dsimp only
  split
  · refine Agrees.perform_bind (h.getSubscribers hc) ?_
    refine Agrees.perform_bind (h.profiles _) ?_
    exact Agrees.perform_bind (h.getSubscribers hc) (agrees_ret trivial)
  · refine Agrees.perform_bind (h.profiles _) ?_
    exact Agrees.perform_bind (h.getSubscribers hc) (agrees_ret trivial)

theorem Alike.getMembersRoute (c : ConversationId) :
    (Http.getMembers sess req c).Agrees (Call.exec cfg) anyStates s₁ s₂ := by
  refine h.guarded fun hc => ?_
  refine Agrees.perform_bind (h.findConversation c) ?_
  split
  · exact agrees_ret trivial
  · split
    · exact (h.channelMembers hc).bind fun _ _ _ _ => agrees_ret trivial
    · exact (h.groupMembers hc).bind fun _ _ _ _ => agrees_ret trivial

theorem Alike.getEnvelopes (c : ConversationId) :
    (Http.getEnvelopes sess req c).Agrees (Call.exec cfg) anyStates s₁ s₂ := by
  refine h.guarded fun hc => ?_
  have hrows := h.conversationRows hc
  have hlist : ∀ since limit, listForConversation c since limit s₁.db =
      listForConversation c since limit s₂.db := by
    intro since limit
    simp only [listForConversation, hrows]
  split
  · dsimp only
    split
    · split
      · exact Agrees.perform_bind (hlist _ _) (agrees_ret trivial)
      · exact agrees_ret trivial
    · exact Agrees.perform_bind (congrArg (cursoredPage _ _) hrows) (agrees_ret trivial)
  · exact agrees_ret trivial

/-! The lists of the user show only what the user takes part in. -/

theorem Alike.collectConversations (names : UserId → Option String)
    (list : List (ConversationRecord × Option Timestamp))
    (hin : ∀ e ∈ list, isUserInConversation e.1.conversationId sess.userId s₁.db) :
    (Http.collectConversations sess names list).Agrees (Call.exec cfg) anyStates s₁ s₂ := by
  induction list with
  | nil => exact agrees_ret trivial
  | cons e list ih =>
    unfold Http.collectConversations
    refine Agrees.bind (h.peerFields (hin e List.mem_cons_self) _) ?_
    rintro peer _ _ ⟨rfl, rfl⟩
    exact Agrees.bind (ih fun e he => hin e (List.mem_cons_of_mem _ he))
      fun _ _ _ _ => agrees_ret trivial

variable (h₁ : Settled cfg s₁) (h₂ : Settled cfg s₂)
include h₁

theorem Alike.getConversations :
    (Http.getConversations sess req).Agrees (Call.exec cfg) anyStates s₁ s₂ := by
  refine Agrees.perform_bind (h.getConversationsForUser h₁) ?_
  refine Agrees.perform_bind (h.profiles _) ?_
  refine (h.collectConversations _ _ fun e he => ?_).bind fun _ _ _ _ => agrees_ret trivial
  exact h₁.mem_getConversationsForUser he

theorem Alike.getAttachment (i : AttachmentId) :
    (Http.getAttachment sess req i).Agrees (Call.exec cfg) anyStates s₁ s₂ := by
  refine ⟨?_, trivial⟩
  have hmeta := h.attachment i
  rw [run_getAttachment, run_getAttachment]
  cases hm₁ : getAttachmentMeta i s₁.db with
  | none =>
    rw [hm₁, Option.map_none] at hmeta
    rw [Option.map_eq_none_iff.mp hmeta.symm]
  | some a₁ =>
    rw [hm₁, Option.map_some] at hmeta
    obtain ⟨a₂, hm₂, he⟩ := Option.map_eq_some_iff.mp hmeta.symm
    obtain ⟨hc, hu, heq⟩ := h.eq_of_redacted he.symm
    simp only [hm₂, ← hc, ← hu, ← h.inConversation]
    split
    · rfl
    · split
      · rfl
      · rename_i hin
        have hc₁ : isUserInConversation a₁.conversationId sess.userId s₁.db := by simpa using hin
        cases heq hc₁
        rw [h.blob h₁ (List.mem_of_find?_eq_some hm₁) hc₁]

include h₂

theorem Alike.getPending :
    (Http.getPending sess req).Agrees (Call.exec cfg) anyStates s₁ s₂ := by
  unfold Http.getPending
  split
  · refine Agrees.perform_bind ?_ (agrees_ret trivial)
    exact congrArg (cursoredPage _ _) (h.pendingRows h₁ h₂ sess.deviceId)
  · exact agrees_ret trivial

end Routes

theorem handleGet_eq_of_alike (cfg : ServerConfig) (sess : SessionRecord) (req : HttpRequest)
    {s₁ s₂ : Server} (hr₁ : Reached cfg s₁) (hr₂ : Reached cfg s₂) (h : Alike sess.userId s₁ s₂) :
    ((handleGet cfg sess req).run (Call.exec cfg) s₁).1 =
      ((handleGet cfg sess req).run (Call.exec cfg) s₂).1 := by
  have h₁ := hr₁.settled
  have h₂ := hr₂.settled
  unfold handleGet
  split
  · rfl
  · exact h.getMe.1
  · exact h.getMyDevices.1
  · exact h.getKeyBundle.1
  · exact h.getChanges.1
  · exact h.getUsers.1
  · exact (h.getUserByUsername _).1
  · exact h.getSearch.1
  · exact (h.getPrekeyBundles _).1
  · exact (h.getDevicesOf _).1
  · exact (h.getUser _).1
  · exact (h.getConversation _).1
  · exact (h.getMembersRoute _).1
  · exact (h.getPending h₁ h₂).1
  · exact (h.getEnvelopes _).1
  · exact (h.getConversations h₁).1
  · exact (h.sameDevices.getPrekeyBundle _ _).1
  · exact (h.getPrekeyBundleOfDevice _).1
  · exact (h.getAttachment h₁ _).1

/-- A reading request of a user has the same response in any two reached states that differ only in
what is hidden from the user. -/
theorem same_response_of_alike (cfg : ServerConfig) (sess : SessionRecord) (req : HttpRequest)
    {s₁ s₂ : Server} (hr₁ : Reached cfg s₁) (hr₂ : Reached cfg s₂) (h : Alike sess.userId s₁ s₂) :
    ((handleGet cfg sess req).run (Call.exec cfg) s₁).1 =
      ((handleGet cfg sess req).run (Call.exec cfg) s₂).1 ∧
    (req.method = .get → ∀ draws,
      ((handleAuthenticated cfg draws sess req).run (Call.exec cfg) s₁).1 =
        ((handleAuthenticated cfg draws sess req).run (Call.exec cfg) s₂).1) := by
  have hsame := handleGet_eq_of_alike cfg sess req hr₁ hr₂ h
  refine ⟨hsame, fun hget draws => ?_⟩
  simp only [handleAuthenticated, hget]
  exact hsame

def registers (name : String) (u : UserId) : Op :=
  .register ⟨name, "p", "d", "", "k", "k", "k", "w", "w", "w"⟩ (some "s") u "d"
    ⟨u ++ "t", u ++ "r", u ++ "s"⟩

/-- Two users have a group, and one of them sends a text; the third user is not in it. -/
def talk (text : String) : List (Op ⊕ Timestamp) :=
  [.inl (registers "alice" "a"), .inl (registers "bob" "b"), .inl (registers "carol" "c"),
    .inl (.createGroup "a" ["a", "b"] "g"),
    .inl (.sendEnvelope ⟨"a", "d", "g", text, "e", 0, none⟩ "")]

def carolSession : SessionRecord := ⟨"cs", "c", "d", "ct", "cr", 900, 2592000, 0, none⟩

theorem talk_hidden_from_third : ∃ s₁ s₂,
    Machine.run (voxServer default).atOnce {} (talk "x") = some s₁ ∧
    Machine.run (voxServer default).atOnce {} (talk "y") = some s₂ ∧
    s₁.db.encryptedEnvelopes ≠ s₂.db.encryptedEnvelopes ∧ carolSession ∈ s₁.db.sessions ∧
    ∀ req, req.method = .get → ∀ draws,
      ((handleAuthenticated default draws carolSession req).run (Call.exec default) s₁).1 =
        ((handleAuthenticated default draws carolSession req).run (Call.exec default) s₂).1 := by
  have hserved : ∀ text o, .inl o ∈ talk text → served o := by simp [talk, registers, served]
  refine ⟨_, _, rfl, rfl, by decide, by decide, fun req => (same_response_of_alike default
    carolSession req ⟨talk "x", rfl, .inl (hserved _)⟩ ⟨talk "y", rfl, .inl (hserved _)⟩ ?_).2⟩
  exact ⟨rfl, rfl, rfl, rfl, rfl, rfl, by decide, by decide, by decide, by decide, by decide,
    fun _ _ => rfl⟩

end VoxServer.Confidentiality
