import VoxServer.Interleaving.Sequential
import VoxServer.Server.System

/-! # Which operation makes which call

Most operations make only routine calls. Delivering and deleting, and creating an
account, is left to a few: this module says which.
-/

namespace VoxServer

open Interleaving Prog

section Rules

variable {α : Type} {P : Call → Prop} {c : Call}

theorem only_ask : (ask c).Only P ↔ P c := and_iff_left fun _ => trivial

theorem only_ask_bind {f : c.Reply → ServerProg α} :
    (ask c >>= f).Only P ↔ P c ∧ ∀ r, (f r).Only P := Iff.rfl

end Rules

namespace Call

/-- A call that neither delivers nor deletes anything, and does not create an account. -/
def routine : Call → Bool
  | users (.createUser _) => false
  | envelopes (.storeEnvelope _) => false
  | envelopes (.addDeliveryState ..) => false
  | envelopes (.markDelivered ..) => false
  | envelopes (.markAcked ..) => false
  | envelopes (.deletePendingDeliveryForUserInConversation ..) => false
  | envelopes (.deleteExpired _) => false
  | admin _ => false
  | delivery _ => false
  | _ => true

/-- A routine call that changes no membership, ends no subscription and announces no upload. -/
def tame : Call → Bool
  | conversations (.addMember ..) => false
  | conversations (.removeMember ..) => false
  | conversations (.unsubscribe ..) => false
  | attachments (.createAttachmentMeta _) => false
  | c => c.routine

theorem routine_of_tame {c : Call} (h : c.tame) : c.routine := by
  unfold tame at h
  split at h
  case h_5 => exact h
  all_goals cases h

def writesKeys : Call → Bool
  | users (.createUser _) => true
  | users (.setSyncKeyBundle ..) => true
  | devices (.registerDevice _) => true
  | devices (.updateSignedPrekey ..) => true
  | _ => false

def subscribes : Call → Bool
  | conversations (.subscribe ..) => true
  | _ => false

/-- A tame call that writes no keys and subscribes nobody. -/
def calm (c : Call) : Bool := c.tame && !c.writesKeys && !c.subscribes

theorem calm_iff {c : Call} : c.calm ↔ c.tame ∧ ¬ c.writesKeys ∧ ¬ c.subscribes := by
  simp [calm, and_assoc]

theorem tame_of_calm {c : Call} (h : c.calm) : c.tame := (calm_iff.mp h).1

theorem not_subscribes_of_calm {c : Call} (h : c.calm) : ¬ c.subscribes := (calm_iff.mp h).2.2

end Call

namespace Op

/-- The calls that an operation may make. -/
def mayCall : Op → Call → Bool
  | single c', c => c = c'
  | register _ _ uuid _ _, .users (.createUser u) => u.userId = uuid
  | createDm .., .conversations (.addMember ..) => true
  | createGroup .., .conversations (.addMember ..) => true
  | createChannel .., .conversations (.addMember ..) => true
  | addMember .., .conversations (.addMember ..) => true
  | sendEnvelope r _, .envelopes (.storeEnvelope e) => e.conversationId = r.conversationId
  | sendEnvelope .., .envelopes (.addDeliveryState ..) => true
  | sendEnvelope r _, .delivery (.enqueue _ _ q) => q.conversationId = r.conversationId
  | acknowledgeEnvelope u d e, .envelopes (.markAcked e' u' d' _) => e' = e ∧ u' = u ∧ d' = d
  | removeMember .., .conversations (.removeMember ..) => true
  | removeMember .., .envelopes (.deletePendingDeliveryForUserInConversation ..) => true
  | removeMember .., .delivery (.purgeConversationFromDeviceQueue ..) => true
  | unsubscribeChannel .., .conversations (.unsubscribe ..) => true
  | unsubscribeChannel .., .envelopes (.deletePendingDeliveryForUserInConversation ..) => true
  | unsubscribeChannel .., .delivery (.purgeConversationFromDeviceQueue ..) => true
  | initUpload .., .attachments (.createAttachmentMeta _) => true
  | deleteUser _, .admin _ => true
  | maintenance, .envelopes (.deleteExpired _) => true
  | _, c => c.tame

end Op

abbrev Routine {α : Type} (p : ServerProg α) : Prop := p.Only (·.routine)

def Tame {α : Type} (p : ServerProg α) : Prop := p.Only (·.tame)

theorem Tame.routine {α : Type} {p : ServerProg α} (h : Tame p) : Routine p :=
  h.mono fun _ => Call.routine_of_tame

def Calm {α : Type} (p : ServerProg α) : Prop := p.Only (·.calm)

theorem Calm.tame {α : Type} {p : ServerProg α} (h : Calm p) : Tame p :=
  h.mono fun _ => Call.tame_of_calm

section Calm

variable (cfg : ServerConfig)

theorem calm_issueTokens (u : UserId) (d : DeviceId) (now : Timestamp) (fresh : FreshTokens) :
    Calm (TokenManager.issueTokens cfg u d now fresh) := by
  refine only_ask_bind.mpr ⟨rfl, fun r => ?_⟩
  split <;> trivial

theorem calm_validateAccessToken (t : String) (now : Timestamp) :
    Calm (TokenManager.validateAccessToken cfg t now) := by
  refine only_ask_bind.mpr ⟨rfl, fun r => ?_⟩
  repeat' split
  all_goals trivial

theorem calm_refreshTokens (t : String) (d : DeviceId) (now : Timestamp)
    (fresh : FreshTokens) : Calm (TokenManager.refreshTokens cfg t d now fresh) := by
  refine only_ask_bind.mpr ⟨rfl, fun r => ?_⟩
  repeat' split
  case h_1.isFalse.isFalse =>
    refine only_ask_bind.mpr ⟨rfl, fun r => ?_⟩
    split
    · trivial
    · refine (calm_issueTokens cfg _ _ _ _).bind fun r => ?_
      split <;> trivial
  all_goals trivial

theorem calm_revokeByAccessToken (t : String) (now : Timestamp) :
    Calm (TokenManager.revokeByAccessToken cfg t now) := by
  refine (calm_validateAccessToken cfg t now).bind fun r => ?_
  split
  · trivial
  · exact only_ask.mpr rfl

theorem calm_refresh (request : RefreshRequest) (fresh : FreshTokens) :
    Calm (AuthService.refresh cfg request fresh) := by
  refine only_ask_bind.mpr ⟨rfl, fun now => ?_⟩
  refine (calm_refreshTokens cfg _ _ now fresh).bind fun r => ?_
  split
  · trivial
  · refine only_ask_bind.mpr ⟨rfl, fun r => ?_⟩
    split <;> trivial

theorem only_notifyDevices {P : Call → Prop} (hn : ∀ k json, P (.wsPush (.notify k json)))
    (u : UserId) (d : DeviceId) (json : String) (devs : List DeviceRecord) :
    (Handlers.notifyDevices u d json devs).Only P := by
  induction devs with
  | nil => trivial
  | cons dev devs ih =>
    unfold Handlers.notifyDevices
    split
    · exact ih
    · split
      · exact ih
      · exact only_ask_bind.mpr ⟨hn _ _, fun _ => ih⟩

theorem calm_notifyDevices (u : UserId) (d : DeviceId) (json : String)
    (devs : List DeviceRecord) : Calm (Handlers.notifyDevices u d json devs) :=
  only_notifyDevices (fun _ _ => rfl) u d json devs

theorem calm_deleteDevice (u : UserId) (d target : DeviceId) :
    Calm (Handlers.deleteDevice cfg u d target) := by
  unfold Handlers.deleteDevice
  split
  · trivial
  · refine only_ask_bind.mpr ⟨rfl, fun r => ?_⟩
    split
    · refine only_ask_bind.mpr ⟨rfl, fun now => ?_⟩
      refine only_ask_bind.mpr ⟨rfl, fun r => ?_⟩
      split
      · trivial
      · refine only_ask_bind.mpr ⟨rfl, fun r => ?_⟩
        split
        · trivial
        · refine Only.bind ?_ fun _ => trivial
          exact only_ask_bind.mpr ⟨rfl, fun devs => calm_notifyDevices _ _ _ devs⟩
    · trivial

theorem calm_connect (t : String) (n : ℕ) : Calm (Handlers.connect cfg t n) := by
  refine only_ask_bind.mpr ⟨rfl, fun now => ?_⟩
  refine (calm_validateAccessToken cfg t now).bind fun r => ?_
  split
  · trivial
  · exact only_ask_bind.mpr ⟨rfl, fun _ => trivial⟩

theorem calm_actorCanManageMembers (conv : ConversationRecord) (u : UserId) :
    Calm (ConversationService.actorCanManageMembers conv u) := by
  refine only_ask_bind.mpr ⟨rfl, fun r => ?_⟩
  split <;> trivial

theorem calm_writeChunk (i : AttachmentId) (offset : ℤ) (data : String) :
    Calm (AttachmentService.writeChunk i offset data) := by
  refine only_ask_bind.mpr ⟨rfl, fun r => ?_⟩
  split
  · split
    · trivial
    · refine only_ask_bind.mpr ⟨rfl, fun ok => ?_⟩
      split <;> trivial
  · trivial

theorem calm_finalizeUpload (i : AttachmentId) (hash : String) :
    Calm (AttachmentService.finalizeUpload i hash) := by
  refine only_ask_bind.mpr ⟨rfl, fun r => ?_⟩
  split
  · split
    · trivial
    · refine only_ask_bind.mpr ⟨rfl, fun found => ?_⟩
      split
      · trivial
      · exact only_ask.mpr rfl
  · trivial

theorem calm_removeBlobs (as : List AttachmentRecord) :
    Calm (AttachmentService.removeBlobs as) := by
  induction as with
  | nil => trivial
  | cons a as ih => exact only_ask_bind.mpr ⟨rfl, fun _ => ih⟩

theorem calm_deleteExpired : Calm AttachmentService.deleteExpired := by
  refine only_ask_bind.mpr ⟨rfl, fun now => ?_⟩
  refine only_ask_bind.mpr ⟨rfl, fun expired => ?_⟩
  exact (calm_removeBlobs expired).bind fun _ => only_ask.mpr rfl

theorem calm_authorize (request : SendMessageRequest) :
    Calm (RelayService.authorize request) := by
  unfold RelayService.authorize
  split
  · trivial
  · refine only_ask_bind.mpr ⟨rfl, fun r => ?_⟩
    split
    · refine only_ask_bind.mpr ⟨rfl, fun r => ?_⟩
      split
      · refine only_ask_bind.mpr ⟨rfl, fun r => ?_⟩
        split
        · trivial
        · split
          · refine only_ask_bind.mpr ⟨rfl, fun r => ?_⟩
            split
            · trivial
            · split
              · trivial
              · refine only_ask_bind.mpr ⟨rfl, fun r => ?_⟩
                split
                · trivial
                · split <;> trivial
          · trivial
      · trivial
    · trivial

theorem calm_targetUsers (conv : ConversationRecord) (c : ConversationId) :
    Calm (RelayService.targetUsers conv c) := by
  unfold RelayService.targetUsers
  split
  · exact only_ask.mpr rfl
  · exact only_ask_bind.mpr ⟨rfl, fun _ => trivial⟩

end Calm

namespace Op

variable (cfg : ServerConfig)

theorem mayCall_of_tame {o : Op} (ho : ∀ c, o ≠ single c) (c : Call) (hc : c.tame) :
    o.mayCall c := by
  unfold mayCall
  split
  · exact absurd rfl (ho _)
  all_goals first | exact hc | cases hc

theorem mayCall_of_calm {o : Op} (ho : ∀ c, o ≠ single c) (c : Call) (hc : c.calm) :
    o.mayCall c :=
  mayCall_of_tame ho c (Call.tame_of_calm hc)

section Accounts

variable {P : Call → Prop} (hcalm : ∀ c : Call, c.calm → P c)

include hcalm

theorem only_register {u : UserId}
    (hu : ∀ r : UserRecord, r.userId = u → r.bundle.Whole → P (.users (.createUser r)))
    (hd : ∀ d : DeviceRecord, d.Keyed → P (.devices (.registerDevice d)))
    (request : RegisterRequest) (salt : Option String) (d : String) (fresh : FreshTokens) :
    (AuthService.register cfg request salt u d fresh).Only P := by
  unfold AuthService.register
  split
  · trivial
  split
  · trivial
  rename_i hbundle
  split
  · trivial
  rename_i hkeys
  rw [not_or, not_or] at hbundle hkeys
  refine only_ask_bind.mpr ⟨hcalm _ rfl, fun r => ?_⟩
  split
  · trivial
  split
  · trivial
  refine only_ask_bind.mpr ⟨hcalm _ rfl, fun now => ?_⟩
  refine only_ask_bind.mpr ⟨hu _ rfl hbundle, fun r => ?_⟩
  split
  · trivial
  refine only_ask_bind.mpr ⟨hd _ hkeys, fun r => ?_⟩
  split
  · trivial
  refine (Only.mono hcalm (calm_issueTokens cfg _ _ _ _)).bind fun r => ?_
  split <;> trivial

theorem only_enterDevice (hd : ∀ d : DeviceRecord, d.Keyed → P (.devices (.registerDevice d)))
    (request : LoginRequest) (u : UserId) (d : DeviceId) (now : Timestamp) :
    (AuthService.enterDevice request u d now).Only P := by
  refine only_ask_bind.mpr ⟨hcalm _ rfl, fun r => ?_⟩
  split
  · split
    · trivial
    · rename_i hkeys
      rw [not_or, not_or] at hkeys
      refine only_ask_bind.mpr ⟨hd _ hkeys, fun r => ?_⟩
      split <;> trivial
  · refine only_ask_bind.mpr ⟨hcalm _ rfl, fun r => ?_⟩
    split <;> trivial

theorem only_login (hd : ∀ d : DeviceRecord, d.Keyed → P (.devices (.registerDevice d)))
    (request : LoginRequest) (uuid : String) (fresh : FreshTokens) :
    (AuthService.login cfg request uuid fresh).Only P := by
  refine only_ask_bind.mpr ⟨hcalm _ rfl, fun r => ?_⟩
  repeat' split
  case h_1.isFalse.isFalse =>
    refine only_ask_bind.mpr ⟨hcalm _ rfl, fun now => ?_⟩
    refine (only_enterDevice hcalm hd request _ _ now).bind fun r => ?_
    split
    · trivial
    · refine (Only.mono hcalm (calm_issueTokens cfg _ _ _ _)).bind fun r => ?_
      split <;> trivial
  all_goals trivial

theorem only_changePassword {u : UserId}
    (hb : ∀ b : SyncKeyBundleRecord, b.Whole → P (.users (.setSyncKeyBundle u b)))
    (request : ChangePasswordRequest) (salt : Option String) :
    (AuthService.changePassword cfg u request salt).Only P := by
  refine only_ask_bind.mpr ⟨hcalm _ rfl, fun r => ?_⟩
  split
  · split
    · trivial
    rename_i hbundle
    split
    · trivial
    split
    · trivial
    refine only_ask_bind.mpr ⟨hcalm _ rfl, fun r => ?_⟩
    split
    · trivial
    rw [not_or, not_or] at hbundle
    refine only_ask_bind.mpr ⟨hb _ hbundle, fun r => ?_⟩
    split <;> trivial
  · trivial

end Accounts

section Conversations

variable {P : Call → Prop} (hcalm : ∀ c : Call, c.calm → P c) {conv : ConversationId}

section Loops

variable {us : List UserId}

theorem only_addMembers (hm : ∀ u ∈ us, ∀ r now, P (.conversations (.addMember conv u r now)))
    (role : UserId → MemberRole) (now : Timestamp) :
    (ConversationService.addMembers conv role now us).Only P := by
  induction us with
  | nil => trivial
  | cons u us ih =>
    obtain ⟨hu, hm⟩ := List.forall_mem_cons.mp hm
    refine only_ask_bind.mpr ⟨hu _ _, fun r => ?_⟩
    split
    · trivial
    · exact ih hm

theorem only_addAdmins (hm : ∀ u ∈ us, ∀ r now, P (.conversations (.addMember conv u r now)))
    (hs : ∀ u ∈ us, ∀ now, P (.conversations (.subscribe conv u now))) (u : UserId)
    (now : Timestamp) : (ConversationService.addAdmins conv u now us).Only P := by
  induction us with
  | nil => trivial
  | cons u' us ih =>
    obtain ⟨hu, hm⟩ := List.forall_mem_cons.mp hm
    obtain ⟨hu', hs⟩ := List.forall_mem_cons.mp hs
    refine only_ask_bind.mpr ⟨hu _ _, fun r => ?_⟩
    split
    · trivial
    refine only_ask_bind.mpr ⟨hu' _, fun r => ?_⟩
    split
    · trivial
    · exact ih hm hs

theorem only_addSubscribers (hs : ∀ u ∈ us, ∀ now, P (.conversations (.subscribe conv u now)))
    (now : Timestamp) : (ConversationService.addSubscribers conv now us).Only P := by
  induction us with
  | nil => trivial
  | cons u us ih =>
    obtain ⟨hu, hs⟩ := List.forall_mem_cons.mp hs
    refine only_ask_bind.mpr ⟨hu _, fun r => ?_⟩
    split
    · trivial
    · exact ih hs

end Loops

include hcalm

theorem only_createDm (hm : ∀ u r now, P (.conversations (.addMember conv u r now)))
    (a b u : UserId) : (ConversationService.createDm a b u conv).Only P := by
  unfold ConversationService.createDm
  split
  · trivial
  refine only_ask_bind.mpr ⟨hcalm _ rfl, fun now => ?_⟩
  refine only_ask_bind.mpr ⟨hcalm _ rfl, fun r => ?_⟩
  split
  · trivial
  refine (only_addMembers (fun u _ => hm u) _ _).bind fun r => ?_
  split <;> trivial

theorem only_createGroup (hm : ∀ u r now, P (.conversations (.addMember conv u r now)))
    (u : UserId) (us : List UserId) : (ConversationService.createGroup cfg u us conv).Only P := by
  unfold ConversationService.createGroup
  dsimp only
  repeat' split
  case isFalse.isFalse.isFalse =>
    refine only_ask_bind.mpr ⟨hcalm _ rfl, fun now => ?_⟩
    refine only_ask_bind.mpr ⟨hcalm _ rfl, fun r => ?_⟩
    split
    · trivial
    · refine (only_addMembers (fun u _ => hm u) _ _).bind fun r => ?_
      split <;> trivial
  all_goals trivial

theorem only_createChannel (hm : ∀ u r now, P (.conversations (.addMember conv u r now)))
    (hs : ∀ u now, P (.conversations (.subscribe conv u now))) (u : UserId) (as us : List UserId) :
    (ConversationService.createChannel cfg u as us conv).Only P := by
  unfold ConversationService.createChannel
  dsimp only
  repeat' split
  case h_2.isFalse =>
    refine only_ask_bind.mpr ⟨hcalm _ rfl, fun now => ?_⟩
    refine only_ask_bind.mpr ⟨hcalm _ rfl, fun r => ?_⟩
    split
    · trivial
    refine (only_addAdmins (fun u _ => hm u) (fun u _ => hs u) _ _).bind fun r => ?_
    split
    · trivial
    · refine (only_addSubscribers (fun u _ => hs u) _).bind fun r => ?_
      split <;> trivial
  all_goals trivial

theorem only_subscribeChannel {u : UserId}
    (hs : ∀ now, P (.conversations (.subscribe conv u now))) :
    (ConversationService.subscribeChannel cfg conv u).Only P := by
  refine only_ask_bind.mpr ⟨hcalm _ rfl, fun r => ?_⟩
  repeat' split
  case h_1.isFalse =>
    refine only_ask_bind.mpr ⟨hcalm _ rfl, fun subs => ?_⟩
    split
    · trivial
    · exact only_ask_bind.mpr ⟨hcalm _ rfl, fun now => only_ask.mpr (hs now)⟩
  all_goals trivial

theorem only_addMember {u : UserId} {role : MemberRole}
    (hm : ∀ now, P (.conversations (.addMember conv u role now))) (a : UserId) :
    (ConversationService.addMember cfg conv a u role).Only P := by
  refine only_ask_bind.mpr ⟨hcalm _ rfl, fun r => ?_⟩
  repeat' split
  case h_1.isFalse.isFalse =>
    refine (Only.mono hcalm (calm_actorCanManageMembers _ _)).bind fun r => ?_
    split
    · trivial
    refine only_ask_bind.mpr ⟨hcalm _ rfl, fun n => ?_⟩
    split
    · trivial
    · exact only_ask_bind.mpr ⟨hcalm _ rfl, fun now => only_ask.mpr (hm now)⟩
  all_goals trivial

end Conversations

theorem only_initUpload {P : Call → Prop} (hcalm : ∀ c : Call, c.calm → P c)
    (hr : ∀ r : AttachmentRecord, r.blobPath = AttachmentService.blobPathOf cfg r.attachmentId →
      P (.attachments (.createAttachmentMeta r)))
    (u : UserId) (c : ConversationId) (n : ℤ) (mime uuid : String) :
    (AttachmentService.initUpload cfg u c n mime uuid).Only P := by
  unfold AttachmentService.initUpload
  split
  · trivial
  split
  · trivial
  refine only_ask_bind.mpr ⟨hcalm _ rfl, fun used => ?_⟩
  split
  · trivial
  refine only_ask_bind.mpr ⟨hcalm _ rfl, fun isMember => ?_⟩
  split
  · trivial
  refine only_ask_bind.mpr ⟨hcalm _ rfl, fun now => ?_⟩
  refine only_ask_bind.mpr ⟨hr _ rfl, fun r => ?_⟩
  split <;> trivial

theorem only_fanOutDevices {P : Call → Prop} {queued : QueuedEnvelope}
    (hq : ∀ u d, P (.delivery (.enqueue u d queued)))
    (hs : ∀ e u d now, P (.envelopes (.addDeliveryState e u d now))) (u : UserId)
    (devs : List DeviceRecord) (n : ℕ) : (RelayService.fanOutDevices queued u devs n).Only P := by
  induction devs generalizing n with
  | nil => trivial
  | cons dev devs ih =>
    unfold RelayService.fanOutDevices
    split
    · exact ih n
    · split
      · exact ih n
      · refine only_ask_bind.mpr ⟨hq _ _, fun r => ?_⟩
        split
        · exact ih _
        · exact only_ask_bind.mpr ⟨hs _ _ _ _, fun _ => ih n⟩

theorem only_fanOut {P : Call → Prop} {queued : QueuedEnvelope}
    (hq : ∀ u d, P (.delivery (.enqueue u d queued)))
    (hs : ∀ e u d now, P (.envelopes (.addDeliveryState e u d now)))
    (hd : ∀ u, P (.devices (.getDevicesForUser u))) (us : List UserId) (n : ℕ) :
    (RelayService.fanOut queued us n).Only P := by
  induction us generalizing n with
  | nil => trivial
  | cons u us ih =>
    refine only_ask_bind.mpr ⟨hd u, fun devs => ?_⟩
    exact (only_fanOutDevices hq hs u devs n).bind fun n => ih n

theorem only_sendEnvelope {P : Call → Prop} (hcalm : ∀ c : Call, c.calm → P c)
    {request : SendMessageRequest} {uuid : String} {i : EnvelopeId}
    (hi : i = if request.envelopeId = "" then uuid else request.envelopeId)
    (hs : ∀ now, P (.envelopes (.storeEnvelope (RelayService.newEnvelope cfg request i now))))
    (hq : ∀ now u d, P (.delivery (.enqueue u d (RelayService.newQueued request i now))))
    (hds : ∀ e u d now, P (.envelopes (.addDeliveryState e u d now))) :
    (RelayService.sendEnvelope cfg request uuid).Only P := by
  subst hi
  refine (Only.mono hcalm (calm_authorize request)).bind fun r => ?_
  split
  · trivial
  · refine only_ask_bind.mpr ⟨hcalm _ rfl, fun r => ?_⟩
    split
    · trivial
    · refine only_ask_bind.mpr ⟨hcalm _ rfl, fun now => ?_⟩
      refine only_ask_bind.mpr ⟨hs now, fun r => ?_⟩
      split
      · trivial
      · refine (Only.mono hcalm (calm_targetUsers _ _)).bind fun us => ?_
        exact (only_fanOut (hq now) hds (fun _ => hcalm _ rfl) us 0).bind fun n => trivial

theorem only_purgeMemberDelivery {P : Call → Prop}
    (hq : ∀ c u d, P (.delivery (.purgeConversationFromDeviceQueue c u d)))
    (hs : ∀ c u, P (.envelopes (.deletePendingDeliveryForUserInConversation c u)))
    (hd : ∀ u, P (.devices (.getDevicesForUser u))) (c : ConversationId) (u : UserId) :
    (ConversationService.purgeMemberDelivery c u).Only P := by
  refine only_ask_bind.mpr ⟨hs c u, fun _ => ?_⟩
  refine only_ask_bind.mpr ⟨hd u, fun devs => ?_⟩
  induction devs with
  | nil => trivial
  | cons dev devs ih => exact only_ask_bind.mpr ⟨hq _ _ _, fun _ => ih⟩

theorem only_removeMember {P : Call → Prop} (hcalm : ∀ c : Call, c.calm → P c) {c : ConversationId}
    {u : UserId} (hm : ∀ now, P (.conversations (.removeMember c u now)))
    (hq : ∀ c u d, P (.delivery (.purgeConversationFromDeviceQueue c u d)))
    (hs : ∀ c u, P (.envelopes (.deletePendingDeliveryForUserInConversation c u))) (a : UserId) :
    (ConversationService.removeMember c a u).Only P := by
  refine only_ask_bind.mpr ⟨hcalm _ rfl, fun r => ?_⟩
  repeat' split
  case h_1.isFalse.isFalse =>
    refine (Only.mono hcalm (calm_actorCanManageMembers _ _)).bind fun r => ?_
    split
    · trivial
    · refine only_ask_bind.mpr ⟨hcalm _ rfl, fun now => ?_⟩
      refine only_ask_bind.mpr ⟨hm now, fun r => ?_⟩
      split
      · trivial
      · exact (only_purgeMemberDelivery hq hs (fun _ => hcalm _ rfl) c u).bind fun _ => trivial
  all_goals trivial

theorem only_unsubscribeChannel {P : Call → Prop} (hcalm : ∀ c : Call, c.calm → P c)
    {c : ConversationId} {u : UserId} (hu : ∀ now, P (.conversations (.unsubscribe c u now)))
    (hq : ∀ c u d, P (.delivery (.purgeConversationFromDeviceQueue c u d)))
    (hs : ∀ c u, P (.envelopes (.deletePendingDeliveryForUserInConversation c u))) :
    (ConversationService.unsubscribeChannel c u).Only P := by
  refine only_ask_bind.mpr ⟨hcalm _ rfl, fun r => ?_⟩
  repeat' split
  case h_1.isFalse =>
    refine only_ask_bind.mpr ⟨hcalm _ rfl, fun m => ?_⟩
    split
    · trivial
    · refine only_ask_bind.mpr ⟨hcalm _ rfl, fun now => ?_⟩
      refine only_ask_bind.mpr ⟨hu now, fun r => ?_⟩
      split
      · trivial
      · exact (only_purgeMemberDelivery hq hs (fun _ => hcalm _ rfl) c u).bind fun _ => trivial
  all_goals trivial

theorem only_deleteUser {P : Call → Prop} (hcalm : ∀ c : Call, c.calm → P c) {u : UserId}
    (ha : P (.admin (.deleteUserRows u))) : (Handlers.deleteUser u).Only P := by
  refine only_ask_bind.mpr ⟨hcalm _ rfl, fun r => ?_⟩
  split
  · exact only_ask.mpr ha
  · trivial

def tame : Op → Bool
  | single c => c.tame
  | register .. => false
  | createDm .. => false
  | createGroup .. => false
  | createChannel .. => false
  | addMember .. => false
  | removeMember .. => false
  | unsubscribeChannel .. => false
  | sendEnvelope .. => false
  | acknowledgeEnvelope .. => false
  | initUpload .. => false
  | deleteUser _ => false
  | maintenance => false
  | _ => true

def subscribes : Op → Bool
  | single c => c.subscribes
  | createChannel .. => true
  | subscribeChannel .. => true
  | _ => false

theorem code_tame {o : Op} (ho : o.tame) :
    (o.code cfg).Only fun c => c.tame ∧ (c.subscribes → o.subscribes) := by
  have hcalm : ∀ c : Call, c.calm → c.tame ∧ (c.subscribes → o.subscribes) := fun c hc =>
    ⟨Call.tame_of_calm hc, fun h => absurd h (Call.not_subscribes_of_calm hc)⟩
  cases o with
  | single c => exact only_ask.mpr ⟨ho, id⟩
  | login r d f => exact only_login cfg hcalm (fun _ _ => ⟨rfl, nofun⟩) r d f
  | logout i => exact only_ask_bind.mpr ⟨hcalm _ rfl, fun now => only_ask.mpr (hcalm _ rfl)⟩
  | logoutWithAccessToken t =>
    refine only_ask_bind.mpr ⟨hcalm _ rfl, fun now => ?_⟩
    exact Only.mono hcalm (calm_revokeByAccessToken cfg t now)
  | refresh r f => exact Only.mono hcalm (calm_refresh cfg r f)
  | changePassword u r salt =>
    exact only_changePassword cfg hcalm (fun _ _ => ⟨rfl, nofun⟩) r salt
  | issueTokens u d now f => exact Only.mono hcalm (calm_issueTokens cfg u d now f)
  | refreshTokens t d now f => exact Only.mono hcalm (calm_refreshTokens cfg t d now f)
  | revokeByAccessToken t now => exact Only.mono hcalm (calm_revokeByAccessToken cfg t now)
  | deleteDevice u d t => exact Only.mono hcalm (calm_deleteDevice cfg u d t)
  | subscribeChannel c u => exact only_subscribeChannel cfg hcalm fun _ => ⟨rfl, fun _ => rfl⟩
  | writeChunk i o data => exact Only.mono hcalm (calm_writeChunk i o data)
  | finalizeUpload i h => exact Only.mono hcalm (calm_finalizeUpload i h)
  | deleteExpiredAttachments => exact Only.mono hcalm calm_deleteExpired
  | connect t n => exact Only.mono hcalm (calm_connect cfg t n)
  | disconnect u d => exact only_ask.mpr (hcalm _ rfl)
  | _ => cases ho

/-- Each operation makes only the calls that it may make, and few subscribe users. -/
theorem code_calls (o : Op) :
    (o.code cfg).Only fun c => o.mayCall c ∧ (c.subscribes → o.subscribes) := by
  have hcalm : (∀ c, o ≠ single c) → ∀ c : Call, c.calm →
      o.mayCall c ∧ (c.subscribes → o.subscribes) := fun hs c hc =>
    ⟨mayCall_of_calm hs c hc, fun h => absurd h (Call.not_subscribes_of_calm hc)⟩
  cases o with
  | single c => exact only_ask.mpr ⟨by simp [mayCall], id⟩
  | register r salt u d f =>
    exact only_register cfg (hcalm (by simp)) (fun _ hu _ => ⟨decide_eq_true hu, nofun⟩)
      (fun _ _ => ⟨rfl, nofun⟩) r salt d f
  | createDm a b u i =>
    exact only_createDm (hcalm (by simp)) (fun _ _ _ => ⟨rfl, nofun⟩) a b u
  | createGroup u us i =>
    exact only_createGroup cfg (hcalm (by simp)) (fun _ _ _ => ⟨rfl, nofun⟩) u us
  | createChannel u as us i =>
    exact only_createChannel cfg (hcalm (by simp)) (fun _ _ _ => ⟨rfl, nofun⟩)
      (fun _ _ => ⟨rfl, fun _ => rfl⟩) u as us
  | addMember c a u r => exact only_addMember cfg (hcalm (by simp)) (fun _ => ⟨rfl, nofun⟩) a
  | initUpload u c n m i =>
    exact only_initUpload cfg (hcalm (by simp)) (fun _ _ => ⟨rfl, nofun⟩) u c n m i
  | sendEnvelope r i =>
    exact only_sendEnvelope cfg (hcalm (by simp)) rfl (fun _ => ⟨decide_eq_true rfl, nofun⟩)
      (fun _ _ _ => ⟨decide_eq_true rfl, nofun⟩) fun _ _ _ _ => ⟨rfl, nofun⟩
  | acknowledgeEnvelope u d e =>
    refine only_ask_bind.mpr ⟨hcalm (by simp) _ rfl, fun now => only_ask.mpr ⟨?_, nofun⟩⟩
    simp [mayCall]
  | removeMember c a u =>
    exact only_removeMember (hcalm (by simp)) (fun _ => ⟨rfl, nofun⟩) (fun _ _ _ => ⟨rfl, nofun⟩)
      (fun _ _ => ⟨rfl, nofun⟩) a
  | unsubscribeChannel c u =>
    exact only_unsubscribeChannel (hcalm (by simp)) (fun _ => ⟨rfl, nofun⟩)
      (fun _ _ _ => ⟨rfl, nofun⟩) fun _ _ => ⟨rfl, nofun⟩
  | deleteUser u => exact only_deleteUser (hcalm (by simp)) ⟨rfl, nofun⟩
  | maintenance =>
    exact only_ask_bind.mpr ⟨hcalm (by simp) _ rfl, fun now => only_ask.mpr ⟨rfl, nofun⟩⟩
  | _ =>
    refine Only.mono (fun c hc => ?_) (code_tame cfg rfl)
    exact ⟨mayCall_of_tame (by simp) c hc.1, hc.2⟩

theorem code_only (o : Op) : (o.code cfg).Only (o.mayCall ·) :=
  (code_calls cfg o).mono fun _ h => h.1

/-- Run alone, an operation keeps the constraints of the schema. -/
theorem code_valid (o : Op) {s : Server} (hv : s.db.Valid) :
    (o.code cfg).Ends (Call.exec cfg) (fun _ s' => s'.db.Valid) s :=
  (code_only cfg o).ends (fun c _ _ hs => c.exec_valid cfg hs) hv

theorem valid_after {init : Server} (hv : init.db.Valid) (acts : List (Op ⊕ Timestamp)) :
    ((voxServer cfg).after init acts).db.Valid := by
  apply (voxServer cfg).after_invariant (I := fun s => s.db.Valid) (P := fun _ => True)
  · exact fun s o _ hs => code_valid cfg o hs
  · exact fun s t hs => hs
  · exact fun _ _ => trivial
  · exact hv

/-- Every call of a run is made by an operation that may make it. -/
theorem mayCall_of_mem_trace {init : Server} {acts : List Act} {ev : Ev}
    (hev : ev ∈ (serve cfg init acts).trace) :
    ∃ t, (serve cfg init acts).threads[ev.tid]? = some t ∧ t.op.mayCall ev.call := by
  have hc := (voxServer cfg).coherent_run init acts
  have hlt := hc.tid_lt ev hev
  refine ⟨_, List.getElem?_eq_getElem hlt, ?_⟩
  refine (hc.follows ev.tid _ (List.getElem?_eq_getElem hlt)).calls (code_only cfg _) ev ?_
  simpa [localTrace] using hev

end Op

end VoxServer
