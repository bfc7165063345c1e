import Mathlib.Data.Finset.Card
import Mathlib.Data.List.Destutter
import VoxServer.Server.Call

/-! # The conversation service

Creating conversations and changing who takes part in them. A member who is
removed, or a subscriber who leaves, loses the deliveries that still wait for
them: first the stored ones, then device by device the queued ones.
-/

namespace VoxServer

open Interleaving

namespace ConversationService

variable (cfg : ServerConfig)

/-- The loop over the devices of `purgeMemberDelivery`. -/
def purgeQueues (convId : ConversationId) : List DeviceRecord → ServerProg Unit
  | [] => return ()
  | d :: ds => do
    ask (.delivery (.purgeConversationFromDeviceQueue convId d.userId d.deviceId))
    purgeQueues convId ds

def purgeMemberDelivery (convId : ConversationId) (userId : UserId) : ServerProg Unit := do
  let _ ← ask (.envelopes (.deletePendingDeliveryForUserInConversation convId userId))
  let devs ← ask (.devices (.getDevicesForUser userId))
  purgeQueues convId devs

/-- Sorted, and of each run of equal ids only the first one. -/
def sortUnique (ids : List UserId) : List UserId := (ids.insertionSort (· ≤ ·)).destutter (· ≠ ·)

def addMembers (convId : ConversationId) (role : UserId → MemberRole) (now : Timestamp) :
    List UserId → ServerProg VoidResult
  | [] => return .ok ()
  | uid :: uids => do
    match ← ask (.conversations (.addMember convId uid (role uid) now)) with
    | .error e => return .error e
    | .ok () => addMembers convId role now uids

def createDm (userA userB createdBy : UserId) (uuid : String) :
    ServerProg (Result ConversationId) := do
  if createdBy ≠ userA ∧ createdBy ≠ userB then
    return .error ⟨.forbidden, "Creator must be one of the participants"⟩
  let now ← ask .now
  let conv : ConversationRecord :=
    { conversationId := uuid, type := .dm, createdBy, createdAt := now }
  match ← ask (.conversations (.createConversation conv)) with
  | .error e => return .error e
  | .ok () =>
    let owner := if createdBy = userA then userA else userB
    let other := if owner = userA then userB else userA
    let users := if userA = userB then [userA] else [owner, other]
    match ← addMembers uuid (fun u => if u = owner then .owner else .member) now users with
    | .error e => return .error e
    | .ok () => return .ok uuid

def createGroup (createdBy : UserId) (memberUserIds : List UserId) (uuid : String) :
    ServerProg (Result ConversationId) := do
  let memberUserIds := sortUnique memberUserIds
  if memberUserIds.length < 2 then
    return .error ⟨.invalidArgument, "Group requires at least two members"⟩
  if createdBy ∉ memberUserIds then
    return .error ⟨.invalidArgument, "Creator must be included in members"⟩
  if memberUserIds.length > cfg.maxGroupSize then
    return .error ⟨.quotaExceeded, "Group exceeds configured maximum member count"⟩
  let now ← ask .now
  let conv : ConversationRecord :=
    { conversationId := uuid, type := .group, createdBy, createdAt := now }
  match ← ask (.conversations (.createConversation conv)) with
  | .error e => return .error e
  | .ok () =>
    match ← addMembers uuid (fun u => if u = createdBy then .owner else .member) now
      memberUserIds with
    | .error e => return .error e
    | .ok () => return .ok uuid

def addAdmins (convId : ConversationId) (createdBy : UserId) (now : Timestamp) :
    List UserId → ServerProg VoidResult
  | [] => return .ok ()
  | uid :: uids => do
    let role : MemberRole := if uid = createdBy then .owner else .admin
    match ← ask (.conversations (.addMember convId uid role now)) with
    | .error e => return .error e
    | .ok () =>
      match ← ask (.conversations (.subscribe convId uid now)) with
      | .error e => return .error e
      | .ok () => addAdmins convId createdBy now uids

def addSubscribers (convId : ConversationId) (now : Timestamp) :
    List UserId → ServerProg VoidResult
  | [] => return .ok ()
  | uid :: uids => do
    match ← ask (.conversations (.subscribe convId uid now)) with
    | .error e => return .error e
    | .ok () => addSubscribers convId now uids

def countAdmins : List UserId → Finset UserId → ℕ → Option (Finset UserId × ℕ)
  | [], seen, total => some (seen, total)
  | a :: as, seen, total =>
    if a ∈ seen then none else countAdmins as (insert a seen) (total + 1)

/-- The loop over the subscribers, which counts those that were not seen before. -/
def countSubscribers : List UserId → Finset UserId → ℕ → ℕ
  | [], _, total => total
  | s :: ss, seen, total =>
    if s ∈ seen then countSubscribers ss seen total
    else countSubscribers ss (insert s seen) (total + 1)

def createChannel (createdBy : UserId) (adminUserIds subscriberUserIds : List UserId)
    (uuid : String) : ServerProg (Result ConversationId) := do
  if adminUserIds = [] then
    return .error ⟨.invalidArgument, "Channel requires at least one admin"⟩
  if createdBy ∉ adminUserIds then
    return .error ⟨.invalidArgument, "Creator must be listed as admin"⟩
  match countAdmins adminUserIds ∅ 0 with
  | none => return .error ⟨.invalidArgument, "Duplicate admin user id"⟩
  | some (seen, totalAdmins) =>
    if countSubscribers subscriberUserIds seen totalAdmins > cfg.maxChannelSize then
      return .error ⟨.quotaExceeded, "Channel exceeds configured maximum subscriber count"⟩
    let now ← ask .now
    let conv : ConversationRecord :=
      { conversationId := uuid, type := .channel, createdBy, createdAt := now
        policyBlob := "\x7b\"title\":\"\",\"channel_post_policy\":\"admins_only\"\x7d" }
    match ← ask (.conversations (.createConversation conv)) with
    | .error e => return .error e
    | .ok () =>
      match ← addAdmins uuid createdBy now adminUserIds with
      | .error e => return .error e
      | .ok () =>
        match ← addSubscribers uuid now (subscriberUserIds.filter (· ∉ adminUserIds)) with
        | .error e => return .error e
        | .ok () => return .ok uuid

def actorCanManageMembers (conv : ConversationRecord) (actor : UserId) : ServerProg Bool := do
  match ← ask (.conversations (.getMember conv.conversationId actor)) with
  | none => return false
  | some m => return m.role = .owner ∨ m.role = .admin

def addMember (convId : ConversationId) (actorUserId newUserId : UserId) (role : MemberRole) :
    ServerProg VoidResult := do
  let some conv ← ask (.conversations (.findById convId))
    | return .error ⟨.notFound, "Conversation not found"⟩
  if conv.type = .dm then
    return .error ⟨.invalidArgument, "Cannot add members to a DM"⟩
  if conv.type = .channel then
    return .error ⟨.invalidArgument, "Use channel subscribe for channel membership"⟩
  if !(← actorCanManageMembers conv actorUserId) then
    return .error ⟨.forbidden, "Insufficient permissions"⟩
  if (← ask (.conversations (.getMemberCount convId))) ≥ cfg.maxGroupSize then
    return .error ⟨.quotaExceeded, "Group is full"⟩
  let now ← ask .now
  ask (.conversations (.addMember convId newUserId role now))

def removeMember (convId : ConversationId) (actorUserId targetUserId : UserId) :
    ServerProg VoidResult := do
  let some conv ← ask (.conversations (.findById convId))
    | return .error ⟨.notFound, "Conversation not found"⟩
  if conv.type = .dm then
    return .error ⟨.invalidArgument, "Cannot remove members from a DM"⟩
  if conv.type = .channel then
    return .error ⟨.invalidArgument, "Use channel unsubscribe"⟩
  if !(← actorCanManageMembers conv actorUserId) then
    return .error ⟨.forbidden, "Insufficient permissions"⟩
  let now ← ask .now
  match ← ask (.conversations (.removeMember convId targetUserId now)) with
  | .error e => return .error e
  | .ok () =>
    purgeMemberDelivery convId targetUserId
    return .ok ()

def subscribeChannel (convId : ConversationId) (userId : UserId) : ServerProg VoidResult := do
  let some conv ← ask (.conversations (.findById convId))
    | return .error ⟨.notFound, "Conversation not found"⟩
  if conv.type ≠ .channel then
    return .error ⟨.invalidArgument, "Not a channel conversation"⟩
  let subs ← ask (.conversations (.getSubscribers convId))
  if userId ∉ subs ∧ subs.length ≥ cfg.maxChannelSize then
    return .error ⟨.quotaExceeded, "Channel subscriber limit reached"⟩
  let now ← ask .now
  ask (.conversations (.subscribe convId userId now))

def unsubscribeChannel (convId : ConversationId) (userId : UserId) : ServerProg VoidResult := do
  let some conv ← ask (.conversations (.findById convId))
    | return .error ⟨.notFound, "Conversation not found"⟩
  if conv.type ≠ .channel then
    return .error ⟨.invalidArgument, "Not a channel conversation"⟩
  let m ← ask (.conversations (.getMember convId userId))
  if m.any fun m => m.role = .owner ∨ m.role = .admin then
    return .error ⟨.forbidden, "Admins cannot unsubscribe; remove admin role first"⟩
  let now ← ask .now
  match ← ask (.conversations (.unsubscribe convId userId now)) with
  | .error e => return .error e
  | .ok () =>
    purgeMemberDelivery convId userId
    return .ok ()

def listForUser (userId : UserId) : ServerProg (List (ConversationRecord × Option Timestamp)) :=
  ask (.conversations (.getConversationsForUser userId))

section Counting

variable {as ss : List UserId} {seen : Finset UserId} {n : ℕ}

theorem sortUnique_eq_dedup (ids : List UserId) :
    sortUnique ids = (ids.insertionSort (· ≤ ·)).dedup :=
  (List.pairwise_insertionSort (· ≤ ·) ids).destutter_eq_dedup

theorem mem_sortUnique {u : UserId} {us : List UserId} : u ∈ sortUnique us ↔ u ∈ us := by
  rw [sortUnique_eq_dedup, List.mem_dedup, List.mem_insertionSort]

theorem nodup_sortUnique (us : List UserId) : (sortUnique us).Nodup := by
  rw [sortUnique_eq_dedup]
  exact List.nodup_dedup _

theorem length_sortUnique (us : List UserId) : (sortUnique us).length = us.toFinset.card := by
  rw [← List.toFinset_card_of_nodup (nodup_sortUnique us)]
  congr 1
  ext u
  rw [List.mem_toFinset, List.mem_toFinset, mem_sortUnique]

theorem countAdmins_eq : countAdmins as seen n =
    if as.Nodup ∧ ∀ a ∈ as, a ∉ seen then some (seen ∪ as.toFinset, n + as.length) else none := by
  induction as generalizing seen n with
  | nil => simp [countAdmins]
  | cons a as ih =>
    rw [countAdmins, ih]
    by_cases ha : a ∈ seen
    · simp [ha]
    · have hsplit : (as.Nodup ∧ ∀ b ∈ as, b ∉ insert a seen) ↔
          (a :: as).Nodup ∧ ∀ b ∈ a :: as, b ∉ seen := by
        simp only [Finset.mem_insert, List.nodup_cons, List.forall_mem_cons]
        grind
      rw [if_neg ha]
      simp only [hsplit]
      congr 3
      · ext b
        simp
      · simp
        omega

theorem countSubscribers_eq : countSubscribers ss seen n = n + (ss.toFinset \ seen).card := by
  induction ss generalizing seen n with
  | nil => simp [countSubscribers]
  | cons s ss ih =>
    rw [countSubscribers, ih, ih]
    by_cases hs : s ∈ seen
    · rw [if_pos hs, List.toFinset_cons, Finset.insert_sdiff_of_mem _ hs]
    · have hcard : ((s :: ss).toFinset \ seen).card = (ss.toFinset \ insert s seen).card + 1 := by
        rw [List.toFinset_cons, Finset.insert_sdiff_of_notMem _ hs, ← Finset.card_insert_of_notMem]
        · congr 1
          ext b
          simp only [Finset.mem_insert, Finset.mem_sdiff]
          tauto
        · simp
      rw [if_neg hs, hcard]
      omega

theorem countAdmins_eq_none_iff : countAdmins as ∅ 0 = none ↔ ¬ as.Nodup := by
  simp [countAdmins_eq]

theorem countSubscribers_of_countAdmins (h : countAdmins as ∅ 0 = some (seen, n))
    (ss : List UserId) : as.Nodup ∧ countSubscribers ss seen n = (as ++ ss).toFinset.card := by
  have has : as.Nodup := by
    by_contra hdup
    rw [countAdmins_eq_none_iff.mpr hdup] at h
    cases h
  obtain ⟨rfl, rfl⟩ : as.toFinset = seen ∧ as.length = n := by
    simpa [countAdmins_eq, has] using h
  refine ⟨has, ?_⟩
  rw [countSubscribers_eq, ← List.toFinset_card_of_nodup has, List.toFinset_append,
    ← Finset.card_union_of_disjoint Finset.disjoint_sdiff, Finset.union_sdiff_self_eq_union]

end Counting

end ConversationService

end VoxServer
