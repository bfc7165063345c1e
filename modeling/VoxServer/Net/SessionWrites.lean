import VoxServer.Net.Authority

/-! # What requests with a session write

The handlers, one by one: each write that a handler makes for the session is one of those
that the session allows, after the checks that the handler and its service have made.
-/

namespace VoxServer.Http

open Interleaving Prog

variable {cfg : ServerConfig} {req : IncomingRequest} {draws : Draws}

section Session

variable {sess : SessionRecord} {es : List Ev}

theorem acts_quiet {α : Type} {p : ServerProg α} (hp : Quiet p) :
    Does cfg (Acts cfg req draws sess) (fun _ _ => True) p es :=
  does_of_only_always hp fun _ _ => .quiet

theorem does_withBody {K : List Ev → Call → Prop}
    {f : List (String × Json) → ServerProg Handled}
    (h : ∀ o, HasBody cfg req o → Does cfg K (fun _ _ => True) (f o) es) :
    Does cfg K (fun _ _ => True) (withBody cfg req.toHttpRequest f) es := by
  unfold withBody
  split
  · trivial
  · rename_i o ho
    exact h o ho

theorem does_withDevice {f : List (String × Json) → ServerProg Handled}
    (h : ∀ o, HasBody cfg req o → jsonField o "device_id" = sess.deviceId →
      Does cfg (Acts cfg req draws sess) (fun _ _ => True) (f o) es) :
    Does cfg (Acts cfg req draws sess) (fun _ _ => True)
      (withDevice cfg sess req.toHttpRequest f) es := by
  apply does_withBody
  intro o ho
  split
  · trivial
  · rename_i hdevice
    exact h o ho (not_not.mp hdevice)

theorem acts_announce {α : Type} (conv : α → ConversationId) (body : α → Json) (r : Result α) :
    Does cfg (Acts cfg req draws sess) (fun _ _ => True)
      (announce cfg req.toHttpRequest conv body r) es :=
  acts_quiet (quiet_announce cfg _ conv body r)

theorem acts_changePassword {o : List (String × Json)} (ho : HasBody cfg req o) :
    Does cfg (Acts cfg req draws sess) (fun _ _ => True)
      (AuthService.changePassword cfg sess.userId (changePasswordRequest cfg o) draws.salt) es := by
  apply does_ask_bind (.quiet rfl)
  intro i s
  split
  · rename_i user huser
    split
    · trivial
    split
    · trivial
    rename_i hverified
    split
    · trivial
    rename_i hashed hhash
    apply does_ask_bind
    · apply Acts.changePassword ho hhash
      have hcurrent : PasswordHasher.verify cfg (jsonField o "current_password_derived_value")
          user.passwordSalt user.passwordVerifier := by
        simpa [changePasswordRequest] using hverified
      exact sometime_snoc ⟨user, huser, hcurrent⟩
    intro j s'
    split
    · trivial
    apply does_ask_bind .keyBundle
    intro k s''
    split <;> trivial
  · trivial

theorem does_authorize {K : List Ev → Call → Prop} (hK : ∀ es c, c.quiet → K es c)
    (request : SendMessageRequest) :
    Does cfg K (fun es r => ∀ conv, r = .ok conv →
        MayPost request.conversationId request.senderUserId es ∧
        Sometime (fun s =>
          ConversationRepository.findById request.conversationId s.db = some conv) es)
      (RelayService.authorize request) es := by
  unfold RelayService.authorize
  split
  · exact nofun
  apply does_ask_bind (hK _ _ rfl)
  intro i s
  split
  swap
  · exact nofun
  rename_i device hdevice
  have hfound : DeviceRepository.findByUserAndDevice request.senderUserId request.senderDeviceId
      s.db = some device := hdevice
  have hself : device.userId = request.senderUserId :=
    congrArg Prod.fst (DeviceRepository.findByUserAndDevice_some hfound).2
  rw [hself]
  apply does_ask_bind (hK _ _ rfl)
  intro i sc
  split
  swap
  · exact nofun
  rename_i conv hconv
  apply does_ask_bind (hK _ _ rfl)
  intro j sm
  split
  · exact nofun
  rename_i hin
  rw [Bool.not_eq_true, Bool.not_eq_false'] at hin
  have hpart : ConversationRepository.isUserInConversation request.conversationId
      request.senderUserId sm.db := hin
  -- the conversation and the participation were read by these two calls, whatever follows
  have hpost : ∀ es' : List Ev, ⟨i, .conversations (.findById request.conversationId), sc⟩ ∈ es' →
      ⟨j, .conversations (.isUserInConversation request.conversationId request.senderUserId), sm⟩ ∈
        es' →
      (conv.type = .channel → RelayService.everyoneMayPost conv.policyBlob ∨
        Sometime (fun s => Manager request.conversationId request.senderUserId s.db) es') →
      ∀ conv', (.ok conv : Result _) = .ok conv' →
        MayPost request.conversationId request.senderUserId es' ∧ Sometime (fun s =>
          ConversationRepository.findById request.conversationId s.db = some conv') es' := by
    rintro es' hc hm hrole _ ⟨⟩
    exact ⟨⟨⟨_, hm, hpart⟩, conv, ⟨_, hc, hconv⟩, hrole⟩, _, hc, hconv⟩
  split
  · rename_i htype
    apply does_ask_bind (hK _ _ rfl)
    intro k s
    split
    · exact nofun
    split
    · rename_i heveryone
      exact hpost _ (by simp) (by simp) fun _ => .inl heveryone
    apply does_ask_bind (hK _ _ rfl)
    intro l sr
    split
    · exact nofun
    rename_i member hmember
    split
    · exact nofun
    · rename_i hrole
      have hmanager : Manager request.conversationId request.senderUserId sr.db :=
        ⟨member, hmember, by grind⟩
      exact hpost _ (by simp) (by simp) fun _ => .inr (sometime_snoc hmanager)
  · rename_i htype
    exact hpost _ (by simp) (by simp) fun hchannel => absurd hchannel htype

theorem does_targetUsers {K : List Ev → Call → Prop} (hK : ∀ es c, c.quiet → K es c)
    {I : List Ev → Prop} (hI : Stable I) (hes : I es) {conv : ConversationRecord}
    {c : ConversationId}
    (hconv : Sometime (fun s => ConversationRepository.findById c s.db = some conv) es) :
    Does cfg K (fun es us => I es ∧ ∀ u ∈ us, Recipient c u es)
      (RelayService.targetUsers conv c) es := by
  unfold RelayService.targetUsers
  split
  · rename_i htype
    intro i s _
    refine ⟨hK _ _ rfl, hI (List.subset_append_left _ _) hes, fun u hu => ?_⟩
    exact .subscriber (.stable (List.subset_append_left _ _) hconv) htype (sometime_snoc hu)
  · rename_i htype
    apply does_ask_bind (hK _ _ rfl)
    intro i s
    refine ⟨hI (List.subset_append_left _ _) hes, fun u hu => ?_⟩
    obtain ⟨m, hm, rfl⟩ := List.mem_map.mp hu
    exact .member (.stable (List.subset_append_left _ _) hconv) htype (sometime_snoc ⟨m, hm, rfl⟩)

structure Sends (sess : SessionRecord) (q : QueuedEnvelope) (us : List UserId) (es : List Ev) :
    Prop where
  user : q.senderUserId = sess.userId
  device : q.senderDeviceId = sess.deviceId
  mayPost : MayPost q.conversationId sess.userId es
  recipients : ∀ u ∈ us, Recipient q.conversationId u es

theorem Sends.stable {q : QueuedEnvelope} {us : List UserId} : Stable (Sends sess q us) :=
  fun _ _ hsub h => { h with
    mayPost := .stable hsub h.mayPost
    recipients := fun u hu => .stable hsub (h.recipients u hu) }

def FoundDevices (u : UserId) (devs : List DeviceRecord) (es : List Ev) : Prop :=
  ∀ dev ∈ devs, dev.userId = u ∧
    Sometime (fun s => dev ∈ DeviceRepository.getDevicesForUser u s.db) es

theorem FoundDevices.stable {u : UserId} {devs : List DeviceRecord} :
    Stable (FoundDevices u devs) :=
  fun _ _ hsub h dev hdev => ⟨(h dev hdev).1, .stable hsub (h dev hdev).2⟩

theorem acts_fanOutDevices {q : QueuedEnvelope} {us : List UserId} {u : UserId} (hu : u ∈ us)
    {devs : List DeviceRecord} (n : ℕ) (hsends : Sends sess q us es)
    (hdevs : FoundDevices u devs es) :
    Does cfg (Acts cfg req draws sess) (fun es _ => Sends sess q us es)
      (RelayService.fanOutDevices q u devs n) es := by
  induction devs generalizing n es with
  | nil => exact hsends
  | cons dev devs ih =>
    have hboth : Stable fun es => Sends sess q us es ∧ FoundDevices u (dev :: devs) es :=
      fun _ _ hsub h => ⟨.stable hsub h.1, .stable hsub h.2⟩
    have htail : ∀ {es}, FoundDevices u (dev :: devs) es → FoundDevices u devs es :=
      fun h => (List.forall_mem_cons.mp h).2
    unfold RelayService.fanOutDevices
    split
    · exact ih n hsends (htail hdevs)
    rename_i hactive
    split
    · exact ih n hsends (htail hdevs)
    rename_i hother
    have hto : ∀ {es}, Sends sess q us es ∧ FoundDevices u (dev :: devs) es →
        Addressed u q dev.deviceId es := by
      rintro es ⟨hsends, hdevs⟩
      obtain ⟨huser, ev, hev, hmem⟩ := hdevs dev List.mem_cons_self
      refine ⟨hsends.recipients u hu, ⟨ev, hev, dev, hmem, rfl, by simpa using hactive⟩, ?_⟩
      intro hsame
      obtain ⟨hu', hd'⟩ := Prod.mk.inj hsame
      exact hother ⟨huser.trans hu', hd'⟩
    apply does_ask_keep hboth ⟨hsends, hdevs⟩
      (.enqueue hsends.user hsends.device hsends.mayPost (hto ⟨hsends, hdevs⟩))
    intro es s hes
    split
    · exact ih _ hes.1 (htail hes.2)
    · apply does_ask_keep hboth hes
        (.addDeliveryState hes.1.user hes.1.device hes.1.mayPost (hto hes))
      intro es s hes
      exact ih n hes.1 (htail hes.2)

theorem acts_fanOut {q : QueuedEnvelope} {us targets : List UserId} (htargets : us ⊆ targets)
    (n : ℕ) (hsends : Sends sess q targets es) :
    Does cfg (Acts cfg req draws sess) (fun _ _ => True) (RelayService.fanOut q us n) es := by
  induction us generalizing n es with
  | nil => trivial
  | cons u us ih =>
    obtain ⟨hu, hus⟩ := List.cons_subset.mp htargets
    apply does_ask_bind (.quiet rfl)
    intro i s
    refine (acts_fanOutDevices hu n (.stable (List.subset_append_left _ _) hsends) ?_).bind
      fun es n hsends => ih hus n hsends
    intro dev hdev
    exact ⟨(DeviceRepository.mem_getDevicesForUser.mp hdev).2, sometime_snoc hdev⟩

theorem acts_sendEnvelope {request : SendMessageRequest} {uuid : String}
    (hu : request.senderUserId = sess.userId) (hd : request.senderDeviceId = sess.deviceId) :
    Does cfg (Acts cfg req draws sess) (fun _ _ => True)
      (RelayService.sendEnvelope cfg request uuid) es := by
  refine (does_authorize (fun _ _ => .quiet) request).bind fun es r hmay => ?_
  cases r with
  | error e => trivial
  | ok conv =>
    have hpost := hmay conv rfl
    rw [hu] at hpost
    have hboth : Stable fun es => MayPost request.conversationId sess.userId es ∧
        Sometime (fun s => ConversationRepository.findById request.conversationId s.db =
          some conv) es :=
      fun _ _ hsub h => ⟨.stable hsub h.1, .stable hsub h.2⟩
    dsimp only
    generalize (if request.envelopeId = "" then uuid else request.envelopeId) = envelopeId
    apply does_ask_keep hboth hpost (.quiet rfl)
    intro es s hpost
    split
    · trivial
    apply does_ask_keep hboth hpost (.quiet rfl)
    intro es s hpost
    apply does_ask_keep hboth hpost (.send hu hd hpost.1)
    intro es s hpost
    split
    · trivial
    refine (does_targetUsers (fun _ _ => .quiet) MayPost.stable hpost.1 hpost.2).bind
      fun es us hes => ?_
    exact (acts_fanOut (List.Subset.refl us) 0 ⟨hu, hd, hes.1, hes.2⟩).bind fun _ _ _ => trivial

theorem acts_founding {α : Type} {r : ConversationRecord} (hr : r.createdBy = sess.userId)
    (hid : r.conversationId = draws.uuid) {p : ServerProg (Result α)}
    (hp : p.Only fun c => (∃ u role now, c = .conversations (.addMember draws.uuid u role now)) ∨
      ∃ u now, c = .conversations (.subscribe draws.uuid u now)) :
    Does cfg (Acts cfg req draws sess) (fun _ _ => True) (do
      match ← ask (.conversations (.createConversation r)) with
      | .error e => return .error e
      | .ok () => p) es := by
  apply does_ask_bind (.create hr hid)
  intro i s
  split
  · trivial
  rename_i hdone
  have hfounded : Founded draws.uuid sess.userId
      (es ++ [⟨i, .conversations (.createConversation r), s⟩]) :=
    ⟨_, List.mem_append_right _ List.mem_cons_self, r, rfl, hid, hr, hdone⟩
  refine Spec.mono (does_of_only hp Founded.stable ?_ hfounded) fun _ _ _ => trivial
  rintro es _ hes (⟨u, role, now, rfl⟩ | ⟨u, now, rfl⟩)
  · exact .foundMember hes
  · exact .foundSubscriber hes

theorem acts_createDm {a b : UserId} :
    Does cfg (Acts cfg req draws sess) (fun _ _ => True)
      (ConversationService.createDm a b sess.userId draws.uuid) es := by
  unfold ConversationService.createDm
  split
  · trivial
  apply does_ask_bind (.quiet rfl)
  intro i s
  apply acts_founding rfl rfl
  refine (Op.only_addMembers (fun u _ role now => .inl ⟨u, role, now, rfl⟩) _ _).bind fun r => ?_
  split <;> trivial

theorem acts_createGroup {us : List UserId} :
    Does cfg (Acts cfg req draws sess) (fun _ _ => True)
      (ConversationService.createGroup cfg sess.userId us draws.uuid) es := by
  unfold ConversationService.createGroup
  dsimp only
  split
  · trivial
  split
  · trivial
  split
  · trivial
  apply does_ask_bind (.quiet rfl)
  intro i s
  apply acts_founding rfl rfl
  refine (Op.only_addMembers (fun u _ role now => .inl ⟨u, role, now, rfl⟩) _ _).bind fun r => ?_
  split <;> trivial

theorem acts_createChannel {as ss : List UserId} :
    Does cfg (Acts cfg req draws sess) (fun _ _ => True)
      (ConversationService.createChannel cfg sess.userId as ss draws.uuid) es := by
  unfold ConversationService.createChannel
  split
  · trivial
  split
  · trivial
  split
  · trivial
  dsimp only
  split
  · trivial
  apply does_ask_bind (.quiet rfl)
  intro i s
  apply acts_founding rfl rfl
  refine (Op.only_addAdmins (fun u _ role now => .inl ⟨u, role, now, rfl⟩)
    (fun u _ now => .inr ⟨u, now, rfl⟩) _ _).bind fun r => ?_
  split
  · trivial
  refine (Op.only_addSubscribers (fun u _ now => .inr ⟨u, now, rfl⟩) _).bind fun r => ?_
  split <;> trivial

theorem does_actorCanManageMembers {K : List Ev → Call → Prop} (hK : ∀ es c, c.quiet → K es c)
    {r : ConversationRecord} {u : UserId}
    (hgroup : Sometime (fun s => ConversationRepository.findById r.conversationId s.db = some r) es)
    (htype : r.type = .group) :
    Does cfg K (fun es (ok : Bool) => ok = true → MayManage r.conversationId u es)
      (ConversationService.actorCanManageMembers r u) es := by
  apply does_ask_bind (hK _ _ rfl)
  intro i s
  split
  · exact nofun
  · rename_i m hm
    intro hrole
    have hmanager : Manager r.conversationId u s.db := ⟨m, hm, of_decide_eq_true hrole⟩
    obtain ⟨ev, hev, hfound⟩ := hgroup
    exact ⟨⟨ev, List.mem_append_left _ hev, r, hfound, htype⟩, sometime_snoc hmanager⟩

theorem acts_manage {conv : ConversationId} {next : ServerProg VoidResult}
    {missing dm channel forbidden : Error}
    (hnext : ∀ es, MayManage conv sess.userId es →
      Does cfg (Acts cfg req draws sess) (fun _ _ => True) next es) :
    Does cfg (Acts cfg req draws sess) (fun _ _ => True) (do
      let some r ← ask (.conversations (.findById conv)) | return .error missing
      if r.type = .dm then
        return .error dm
      if r.type = .channel then
        return .error channel
      if !(← ConversationService.actorCanManageMembers r sess.userId) then
        return .error forbidden
      next) es := by
  apply does_ask_bind (.quiet rfl)
  intro i s
  split
  swap
  · trivial
  rename_i r hr
  split
  · trivial
  split
  · trivial
  rename_i hdm hchannel
  have hfound : ConversationRepository.findById conv s.db = some r := hr
  have htype : r.type = .group := by
    cases ht : r.type with
    | dm => exact absurd ht hdm
    | channel => exact absurd ht hchannel
    | group => rfl
  obtain ⟨-, rfl⟩ := ConversationRepository.findById_eq_some hfound
  refine (does_actorCanManageMembers (fun _ _ => .quiet) (sometime_snoc hfound)
    htype).bind fun es ok hmay => ?_
  split
  · trivial
  · rename_i hok
    exact hnext es (hmay (by simpa using hok))

theorem acts_addMember {conv : ConversationId} {u : UserId} {role : MemberRole} :
    Does cfg (Acts cfg req draws sess) (fun _ _ => True)
      (ConversationService.addMember cfg conv sess.userId u role) es := by
  apply acts_manage
  intro es hmay
  apply does_ask_keep MayManage.stable hmay (.quiet rfl)
  intro es s hmay
  split
  · trivial
  apply does_ask_keep MayManage.stable hmay (.quiet rfl)
  intro es s hmay
  exact does_ask (.addMember hmay)

theorem acts_purgeMemberDelivery {conv : ConversationId} {u : UserId}
    (h : u = sess.userId ∨ MayManage conv sess.userId es) :
    Does cfg (Acts cfg req draws sess) (fun _ _ => True)
      (ConversationService.purgeMemberDelivery conv u) es := by
  apply does_ask_bind (.dropDelivery h)
  intro i s
  apply does_ask_bind (.quiet rfl)
  intro j s₁
  apply does_of_only_always (P := fun c =>
    ∃ d : DeviceRecord, c = .delivery (.purgeConversationFromDeviceQueue conv d.userId d.deviceId))
  · generalize (Call.exec cfg (.devices (.getDevicesForUser u)) s₁).1 = devs
    induction devs with
    | nil => trivial
    | cons dev devs ih => exact only_ask_bind.mpr ⟨⟨dev, rfl⟩, fun _ => ih⟩
  · rintro es _ ⟨d, rfl⟩
    exact .purgeQueue

theorem acts_removeMember {conv : ConversationId} {u : UserId} :
    Does cfg (Acts cfg req draws sess) (fun _ _ => True)
      (ConversationService.removeMember conv sess.userId u) es := by
  apply acts_manage
  intro es hmay
  apply does_ask_keep MayManage.stable hmay (.quiet rfl)
  intro es s hmay
  apply does_ask_keep MayManage.stable hmay (.removeMember hmay)
  intro es s hmay
  split
  · trivial
  · exact (acts_purgeMemberDelivery (.inr hmay)).bind fun _ _ _ => trivial

theorem acts_subscribeChannel {conv : ConversationId} :
    Does cfg (Acts cfg req draws sess) (fun _ _ => True)
      (ConversationService.subscribeChannel cfg conv sess.userId) es := by
  apply does_ask_bind (.quiet rfl)
  intro i s
  split
  swap
  · trivial
  split
  · trivial
  apply does_ask_bind (.quiet rfl)
  intro j s₁
  split
  · trivial
  apply does_ask_bind (.quiet rfl)
  intro k s₂
  exact does_ask .subscribe

theorem acts_unsubscribeChannel {conv : ConversationId} :
    Does cfg (Acts cfg req draws sess) (fun _ _ => True)
      (ConversationService.unsubscribeChannel conv sess.userId) es := by
  apply does_ask_bind (.quiet rfl)
  intro i s
  split
  swap
  · trivial
  split
  · trivial
  apply does_ask_bind (.quiet rfl)
  intro j s₁
  split
  · trivial
  apply does_ask_bind (.quiet rfl)
  intro k s₂
  apply does_ask_bind .unsubscribe
  intro l s₃
  split
  · trivial
  · exact (acts_purgeMemberDelivery (.inl rfl)).bind fun _ _ _ => trivial

theorem acts_initUpload {conv : ConversationId} {n : ℤ} {mime : String} :
    Does cfg (Acts cfg req draws sess) (fun _ _ => True)
      (AttachmentService.initUpload cfg sess.userId conv n mime draws.uuid) es := by
  unfold AttachmentService.initUpload
  split
  · trivial
  split
  · trivial
  apply does_ask_bind (.quiet rfl)
  intro i s
  split
  · trivial
  apply does_ask_bind (.quiet rfl)
  intro j s₁
  split
  · trivial
  rename_i hin
  rw [Bool.not_eq_true, Bool.not_eq_false'] at hin
  have hpart : ConversationRepository.isUserInConversation conv sess.userId s₁.db := hin
  apply does_ask_bind (.quiet rfl)
  intro k s₂
  apply does_ask_bind (.upload rfl (.stable (List.subset_append_left _ _) (sometime_snoc hpart)))
  intro l s₃
  split <;> trivial

theorem acts_writeChunk {i : AttachmentId} {offset : ℤ} {data : String} :
    Does cfg (Acts cfg req draws sess) (fun _ _ => True)
      (AttachmentService.writeChunk i offset data) es := by
  apply does_ask_bind (.quiet rfl)
  intro j s
  split
  · split
    · trivial
    apply does_ask_bind .chunk
    intro k s₁
    split <;> trivial
  · trivial

theorem acts_finalizeUpload {i : AttachmentId} {hash : String} :
    Does cfg (Acts cfg req draws sess) (fun _ _ => True)
      (AttachmentService.finalizeUpload i hash) es := by
  apply does_ask_bind (.quiet rfl)
  intro j s
  split
  · split
    · trivial
    apply does_ask_bind (.quiet rfl)
    intro k s₁
    split
    · trivial
    · exact does_ask .finalize
  · trivial

theorem acts_deleteDevice {target : DeviceId} :
    Does cfg (Acts cfg req draws sess) (fun _ _ => True)
      (Handlers.deleteDevice cfg sess.userId sess.deviceId target) es := by
  unfold Handlers.deleteDevice
  split
  · trivial
  rename_i hother
  apply does_ask_bind (.quiet rfl)
  intro i s
  split
  swap
  · trivial
  apply does_ask_bind (.quiet rfl)
  intro j s₁
  apply does_ask_bind (.revokeDevice hother)
  intro k s₂
  split
  · trivial
  apply does_ask_bind (.revokeSessions hother)
  intro l s₃
  split
  · trivial
  · exact (acts_quiet (quiet_notifyUserDevicesExcept _ _ _ _)).bind fun _ _ _ => trivial

theorem acts_handlePost :
    Does cfg (Acts cfg req draws sess) (fun _ _ => True)
      (handlePost cfg draws sess req.toHttpRequest) es := by
  unfold handlePost
  split
  case h_1 => trivial
  case h_2 =>
    apply does_ask_bind (.quiet rfl)
    intro i s
    exact (does_ask .logout).bind fun _ _ _ => trivial
  case h_3 =>
    apply does_withBody
    intro o ho
    exact (acts_changePassword ho).bind fun _ _ _ => trivial
  case h_4 =>
    apply does_withDevice
    intro o _ hdevice
    exact (acts_sendEnvelope rfl hdevice).bind fun _ _ _ => trivial
  case h_5 =>
    apply does_withDevice
    intro o _ _
    apply does_ask_bind (.quiet rfl)
    intro i s
    exact (does_ask .ack).bind fun _ _ _ => trivial
  case h_6 =>
    apply does_withBody
    intro o _
    dsimp only
    split
    · exact acts_createDm.bind fun _ r _ => acts_announce _ _ r
    split
    · exact acts_createGroup.bind fun _ r _ => acts_announce _ _ r
    split
    · exact acts_createChannel.bind fun _ r _ => acts_announce _ _ r
    · trivial
  case h_7 =>
    apply does_withBody
    intro o _
    exact acts_addMember.bind fun _ r _ => acts_announce _ _ r
  case h_8 => exact acts_subscribeChannel.bind fun _ r _ => acts_announce _ _ r
  case h_9 => exact acts_unsubscribeChannel.bind fun _ r _ => acts_announce _ _ r
  case h_10 =>
    unfold postPrekeys
    split
    · trivial
    rename_i hown
    rw [not_or, not_not, not_not] at hown
    apply does_withBody
    intro o _
    rw [hown.1, hown.2]
    exact (does_ask .prekeys).bind fun _ _ _ => trivial
  case h_11 =>
    apply does_withBody
    intro o _
    exact acts_initUpload.bind fun _ _ _ => trivial
  case h_12 =>
    unfold postFinalize
    split
    · trivial
    · refine acts_finalizeUpload.bind fun es r _ => ?_
      split <;> trivial

theorem acts_recordWritten (collection recordId : String) (fields : List (String × Json))
    (r : Result SyncPutResult) :
    Does cfg (Acts cfg req draws sess) (fun _ _ => True)
      (recordWritten cfg sess req.toHttpRequest collection recordId fields r) es := by
  cases r with
  | error e => trivial
  | ok a => exact (acts_quiet (quiet_notifyUserDevicesExcept _ _ _ _)).bind fun _ _ _ => trivial

theorem acts_handlePut :
    Does cfg (Acts cfg req draws sess) (fun _ _ => True)
      (handlePut cfg sess req.toHttpRequest) es := by
  unfold handlePut
  split
  case h_1 => trivial
  case h_2 =>
    apply does_withBody
    intro o _
    apply does_ask_bind (.quiet rfl)
    intro i s
    split
    · trivial
    apply does_ask_bind .keyBundle
    intro j s₁
    split
    · trivial
    · exact (acts_quiet (quiet_notifyUserDevicesExcept _ _ _ _)).bind fun _ _ _ => trivial
  case h_3 =>
    apply does_withDevice
    intro o _ _
    apply does_ask_bind (.quiet rfl)
    intro i s
    exact (does_ask .putRecord).bind fun _ r _ => acts_recordWritten _ _ _ r
  case h_4 =>
    unfold putSignedPrekey
    split
    · trivial
    rename_i hown
    rw [not_or, not_not, not_not] at hown
    apply does_withBody
    intro o _
    apply does_ask_bind (.quiet rfl)
    intro i s
    rw [hown.1, hown.2]
    apply does_ask_bind .signedPrekey
    intro j s₁
    split
    · trivial
    · exact (acts_quiet (quiet_notifyUserDevicesExcept _ _ _ _)).bind fun _ _ _ => trivial
  case h_5 =>
    unfold putChunk
    split
    · refine acts_writeChunk.bind fun es r _ => ?_
      split <;> trivial
    · trivial

theorem acts_handleDelete :
    Does cfg (Acts cfg req draws sess) (fun _ _ => True)
      (handleDelete cfg sess req.toHttpRequest) es := by
  unfold handleDelete
  split
  case h_1 => trivial
  case h_2 => exact acts_deleteDevice.bind fun _ _ _ => trivial
  case h_3 =>
    apply does_withDevice
    intro o _ _
    apply does_ask_bind (.quiet rfl)
    intro i s
    exact (does_ask .deleteRecord).bind fun _ r _ => acts_recordWritten _ _ _ r
  case h_4 => exact acts_removeMember.bind fun _ r _ => acts_announce _ _ r

theorem acts_handleAuthenticated :
    Does cfg (Acts cfg req draws sess) (fun _ _ => True)
      (handleAuthenticated cfg draws sess req.toHttpRequest) es := by
  unfold handleAuthenticated
  split
  case h_1 => exact acts_handlePost
  case h_2 => exact acts_quiet (quiet_handleGet _ _ _)
  case h_3 => exact acts_handlePut
  case h_4 => exact acts_handleDelete
  case h_5 => trivial

end Session

end VoxServer.Http
