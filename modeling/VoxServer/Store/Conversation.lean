import Mathlib.Data.List.Sort
import VoxServer.Store.Schema

/-! # The conversation repository

Members of conversations and subscribers of channels. Leaving keeps the row and
stamps it, joining again clears the stamp, and every change of membership bumps
the version of the conversation.
-/

namespace VoxServer

open Table

namespace ConversationRepository

/-- `UPDATE conversations SET membership_version = membership_version + 1`. -/
def bumpMembershipVersion (convId : ConversationId) (db : Database) : Database :=
  { db with
    conversations := updateWhere (·.conversationId = convId)
      (fun c => { c with membershipVersion := c.membershipVersion + 1 }) db.conversations }

def createConversation (conv : ConversationRecord) (db : Database) : VoidResult × Database :=
  let insert : Except SqliteError Database := do
    checkUnique "conversations.conversation_id" ConversationRecord.conversationId conv
      db.conversations
    checkReference UserRecord.userId conv.createdBy db.users
    return { db with conversations := db.conversations ++ [conv] }
  match insert with
  | .ok db' => (.ok (), db')
  | .error .full => (.error SqliteError.full.toInternal, db)
  | .error _ => (.error ⟨.alreadyExists, "Conversation already exists"⟩, db)

def findById (convId : ConversationId) (db : Database) : Option ConversationRecord :=
  db.conversations.find? (·.conversationId = convId)

/-- `INSERT INTO conversation_members ... ON CONFLICT DO UPDATE`. -/
def upsertMember (convId : ConversationId) (userId : UserId) (role : MemberRole) (now : Timestamp)
    (db : Database) : Except SqliteError Database :=
  if ∃ m ∈ db.conversationMembers, m.key = (convId, userId) then
    .ok { db with
      conversationMembers := updateWhere (·.key = (convId, userId))
        (fun m => { m with removedAt := none, role, addedAt := now }) db.conversationMembers }
  else do
    checkReference ConversationRecord.conversationId convId db.conversations
    checkReference UserRecord.userId userId db.users
    return { db with
      conversationMembers := db.conversationMembers ++ [⟨convId, userId, role, now, none⟩] }

def addMember (convId : ConversationId) (userId : UserId) (role : MemberRole) (now : Timestamp)
    (db : Database) : VoidResult × Database :=
  match upsertMember convId userId role now db with
  | .ok db' => (.ok (), bumpMembershipVersion convId db')
  | .error e => (.error e.toInternal, db)

def removeMember (convId : ConversationId) (userId : UserId) (now : Timestamp) (db : Database) :
    VoidResult × Database :=
  let p := fun m : MemberRecord => decide (m.key = (convId, userId) ∧ m.removedAt = none)
  let upd := fun m : MemberRecord => { m with removedAt := some now }
  let db' := { db with conversationMembers := updateWhere p upd db.conversationMembers }
  if db.conversationMembers.countP p > 0 then (.ok (), bumpMembershipVersion convId db')
  else (.ok (), db')

/-- The rows come from the index of the primary key, which has them in the order of the users. -/
def getMembers (convId : ConversationId) (db : Database) : List MemberRecord :=
  (db.conversationMembers.filter fun m =>
    m.conversationId = convId ∧ m.removedAt = none).insertionSort (·.userId ≤ ·.userId)

def getMember (convId : ConversationId) (userId : UserId) (db : Database) : Option MemberRecord :=
  db.conversationMembers.find? fun m => m.key = (convId, userId) ∧ m.removedAt = none

/-- `MAX(server_timestamp)` over the envelopes of the conversation. -/
def lastActivityAt (convId : ConversationId) (db : Database) : Option Timestamp :=
  ((db.encryptedEnvelopes.filter (·.conversationId = convId)).map (·.serverTimestamp)).max?

/-- The conversations that the user is a member of, each with its last activity; subscriptions do
not count. -/
def getConversationsForUser (userId : UserId) (db : Database) :
    List (ConversationRecord × Option Timestamp) :=
  db.conversations.flatMap fun c =>
    (db.conversationMembers.filter fun m =>
      m.key = (c.conversationId, userId) ∧ m.removedAt = none).map fun _ =>
        (c, lastActivityAt c.conversationId db)

/-- A subscriber of a channel, a member of any other conversation. -/
def isUserInConversation (convId : ConversationId) (userId : UserId) (db : Database) : Bool :=
  match findById convId db with
  | none => false
  | some conv =>
    match conv.type with
    | .channel =>
      db.channelSubscriptions.any fun s => s.key = (convId, userId) ∧ s.unsubscribedAt = none
    | _ => db.conversationMembers.any fun m => m.key = (convId, userId) ∧ m.removedAt = none

/-- `INSERT INTO channel_subscriptions ... ON CONFLICT DO UPDATE`. -/
def upsertSubscription (convId : ConversationId) (userId : UserId) (now : Timestamp)
    (db : Database) : Except SqliteError Database :=
  if ∃ s ∈ db.channelSubscriptions, s.key = (convId, userId) then
    .ok { db with
      channelSubscriptions := updateWhere (·.key = (convId, userId))
        (fun s => { s with unsubscribedAt := none, subscribedAt := now }) db.channelSubscriptions }
  else do
    checkReference ConversationRecord.conversationId convId db.conversations
    checkReference UserRecord.userId userId db.users
    return { db with
      channelSubscriptions := db.channelSubscriptions ++ [⟨convId, userId, now, none⟩] }

def subscribe (convId : ConversationId) (userId : UserId) (now : Timestamp) (db : Database) :
    VoidResult × Database :=
  match upsertSubscription convId userId now db with
  | .ok db' => (.ok (), bumpMembershipVersion convId db')
  | .error e => (.error e.toInternal, db)

def unsubscribe (convId : ConversationId) (userId : UserId) (now : Timestamp) (db : Database) :
    VoidResult × Database :=
  let p := fun s : SubscriptionRow => decide (s.key = (convId, userId) ∧ s.unsubscribedAt = none)
  let upd := fun s : SubscriptionRow => { s with unsubscribedAt := some now }
  let db' := { db with channelSubscriptions := updateWhere p upd db.channelSubscriptions }
  if db.channelSubscriptions.countP p > 0 then (.ok (), bumpMembershipVersion convId db')
  else (.ok (), db')

/-- The rows come from the index of the primary key, as those of the members. -/
def getSubscribers (convId : ConversationId) (db : Database) : List UserId :=
  ((db.channelSubscriptions.filter fun s => s.conversationId = convId ∧
    s.unsubscribedAt = none).insertionSort (·.userId ≤ ·.userId)).map (·.userId)

def getMemberCount (convId : ConversationId) (db : Database) : ℕ :=
  db.conversationMembers.countP fun m => m.conversationId = convId ∧ m.removedAt = none

theorem findById_eq_some {c : ConversationId} {db : Database} {r : ConversationRecord}
    (h : findById c db = some r) : r ∈ db.conversations ∧ r.conversationId = c :=
  ⟨List.mem_of_find?_eq_some h, by simpa using List.find?_some h⟩

theorem isUserInConversation_congr {db db' : Database} (hc : db'.conversations = db.conversations)
    (hm : db'.conversationMembers = db.conversationMembers)
    (hs : db'.channelSubscriptions = db.channelSubscriptions) (c : ConversationId) (u : UserId) :
    isUserInConversation c u db' = isUserInConversation c u db := by
  simp only [isUserInConversation, findById, hc, hm, hs]

/-- The row that makes the user a participant of a conversation of the type. -/
def Joined (type : ConversationType) (k : ConversationId × UserId) (db : Database) : Prop :=
  match type with
  | .channel => ∃ s ∈ db.channelSubscriptions, s.key = k ∧ s.unsubscribedAt = none
  | _ => ∃ m ∈ db.conversationMembers, m.key = k ∧ m.removedAt = none

theorem isUserInConversation_iff {c : ConversationId} {u : UserId} {db : Database}
    (hv : db.Valid) : isUserInConversation c u db ↔
      ∃ r ∈ db.conversations, r.conversationId = c ∧ Joined r.type (c, u) db := by
  have hfind : ∀ r ∈ db.conversations, r.conversationId = c → findById c db = some r := by
    intro r hr hc
    refine hv.conversations_pk.find?_eq_some hr (by simpa using hc) fun r' _ h => ?_
    exact (by simpa using h : r'.conversationId = c).trans hc.symm
  have hjoined : ∀ r, findById c db = some r →
      (isUserInConversation c u db ↔ Joined r.type (c, u) db) := by
    intro r hr
    simp only [isUserInConversation, hr, Joined]
    cases r.type <;> simp
  constructor
  · intro h
    cases hr : findById c db with
    | none => simp [isUserInConversation, hr] at h
    | some r =>
      obtain ⟨hmem, hid⟩ := findById_eq_some hr
      exact ⟨r, hmem, hid, (hjoined r hr).mp h⟩
  · rintro ⟨r, hr, hid, h⟩
    exact (hjoined r (hfind r hr hid)).mpr h

theorem upsertMember_ok {c : ConversationId} {u : UserId} {role : MemberRole} {now : Timestamp}
    {db db' : Database} (h : upsertMember c u role now db = .ok db') :
    (∃ m ∈ db.conversationMembers, m.key = (c, u)) ∧ db' = { db with
      conversationMembers := updateWhere (·.key = (c, u))
        (fun m => { m with removedAt := none, role, addedAt := now }) db.conversationMembers } ∨
    (∀ m ∈ db.conversationMembers, m.key ≠ (c, u)) ∧
      (∃ r ∈ db.conversations, r.conversationId = c) ∧ (∃ r ∈ db.users, r.userId = u) ∧
      db' = { db with
        conversationMembers := db.conversationMembers ++ [⟨c, u, role, now, none⟩] } := by
  unfold upsertMember at h
  split at h
  · cases h
    exact .inl ⟨‹_›, rfl⟩
  · rename_i hnew
    obtain ⟨hc, h⟩ := checkReference_bind_ok.mp h
    obtain ⟨hu, h⟩ := checkReference_bind_ok.mp h
    cases h
    exact .inr ⟨fun m hm hk => hnew ⟨m, hm, hk⟩, hc, hu, rfl⟩

theorem upsertSubscription_ok {c : ConversationId} {u : UserId} {now : Timestamp}
    {db db' : Database} (h : upsertSubscription c u now db = .ok db') :
    (∃ s ∈ db.channelSubscriptions, s.key = (c, u)) ∧ db' = { db with
      channelSubscriptions := updateWhere (·.key = (c, u))
        (fun s => { s with unsubscribedAt := none, subscribedAt := now })
        db.channelSubscriptions } ∨
    (∀ s ∈ db.channelSubscriptions, s.key ≠ (c, u)) ∧
      (∃ r ∈ db.conversations, r.conversationId = c) ∧ (∃ r ∈ db.users, r.userId = u) ∧
      db' = { db with channelSubscriptions := db.channelSubscriptions ++ [⟨c, u, now, none⟩] } := by
  unfold upsertSubscription at h
  split at h
  · cases h
    exact .inl ⟨‹_›, rfl⟩
  · rename_i hnew
    obtain ⟨hc, h⟩ := checkReference_bind_ok.mp h
    obtain ⟨hu, h⟩ := checkReference_bind_ok.mp h
    cases h
    exact .inr ⟨fun s hs hk => hnew ⟨s, hs, hk⟩, hc, hu, rfl⟩

/-- A creation needs an unused id and an existing user; if it fails the database is as before. -/
theorem createConversation_cases (conv : ConversationRecord) (db : Database) :
    ((∃ c ∈ db.conversations, c.conversationId = conv.conversationId) ∨
      ¬ ∃ u ∈ db.users, u.userId = conv.createdBy) ∧
      (∃ e, createConversation conv db = (.error e, db)) ∨
    (∀ c ∈ db.conversations, c.conversationId ≠ conv.conversationId) ∧
      (∃ u ∈ db.users, u.userId = conv.createdBy) ∧ createConversation conv db =
        (.ok (), { db with conversations := db.conversations ++ [conv] }) := by
  by_cases hc : ∃ c ∈ db.conversations, c.conversationId = conv.conversationId
  · refine .inl ⟨.inl hc, ⟨.alreadyExists, "Conversation already exists"⟩, ?_⟩
    rw [createConversation, checkUnique, if_pos hc]
    rfl
  by_cases hu : ∃ u ∈ db.users, u.userId = conv.createdBy
  · refine .inr ⟨fun c hm he => hc ⟨c, hm, he⟩, hu, ?_⟩
    rw [createConversation, checkUnique, if_neg hc, checkReference, if_pos hu]
    rfl
  · refine .inl ⟨.inr hu, ⟨.alreadyExists, "Conversation already exists"⟩, ?_⟩
    rw [createConversation, checkUnique, if_neg hc, checkReference, if_neg hu]
    rfl

section Existing

variable {c : ConversationId} {u : UserId} {db : Database} (hv : db.Valid)
  (hc : ∃ r ∈ db.conversations, r.conversationId = c)
include hv hc

theorem addMember_ok_iff (role : MemberRole) (now : Timestamp) :
    (addMember c u role now db).1 = .ok () ↔ ∃ r ∈ db.users, r.userId = u := by
  unfold addMember
  split
  · rename_i h
    refine ⟨fun _ => ?_, fun _ => rfl⟩
    rcases upsertMember_ok h with ⟨⟨m, hm, hk⟩, -⟩ | ⟨-, -, hu, -⟩
    · obtain ⟨r, hr, he⟩ := hv.members_user m hm
      exact ⟨r, hr, he.trans (congrArg Prod.snd hk)⟩
    · exact hu
  · rename_i h
    refine ⟨fun hr => absurd hr (by simp), fun hu => ?_⟩
    unfold upsertMember at h
    split at h
    · cases h
    · rw [checkReference, if_pos hc, checkReference, if_pos hu] at h
      cases h

theorem subscribe_ok_iff (now : Timestamp) :
    (subscribe c u now db).1 = .ok () ↔ ∃ r ∈ db.users, r.userId = u := by
  unfold subscribe
  split
  · rename_i h
    refine ⟨fun _ => ?_, fun _ => rfl⟩
    rcases upsertSubscription_ok h with ⟨⟨m, hm, hk⟩, -⟩ | ⟨-, -, hu, -⟩
    · obtain ⟨r, hr, he⟩ := hv.subscriptions_user m hm
      exact ⟨r, hr, he.trans (congrArg Prod.snd hk)⟩
    · exact hu
  · rename_i h
    refine ⟨fun hr => absurd hr (by simp), fun hu => ?_⟩
    unfold upsertSubscription at h
    split at h
    · cases h
    · rw [checkReference, if_pos hc, checkReference, if_pos hu] at h
      cases h

end Existing

theorem joined_of_subscribe_ok {c : ConversationId} {u : UserId} {now : Timestamp} {db : Database}
    (h : (subscribe c u now db).1 = .ok ()) : Joined .channel (c, u) (subscribe c u now db).2 := by
  unfold subscribe at h ⊢
  split
  · rename_i hup
    rcases upsertSubscription_ok hup with ⟨⟨r, hr, hk⟩, rfl⟩ | ⟨-, -, -, rfl⟩
    · refine ⟨_, mem_updateWhere.mpr ⟨r, hr, rfl⟩, ?_⟩
      rw [if_pos (decide_eq_true hk)]
      exact ⟨hk, rfl⟩
    · exact ⟨_, List.mem_append_right _ List.mem_cons_self, rfl, rfl⟩
  · rename_i hup
    rw [hup] at h
    cases h

theorem addMember_error {c : ConversationId} {u : UserId} {role : MemberRole} {now : Timestamp}
    {db : Database} {e : Error} (h : (addMember c u role now db).1 = .error e) :
    (addMember c u role now db).2 = db := by
  unfold addMember at h ⊢
  split at h
  · cases h
  · rfl

theorem removeMember_ok (c : ConversationId) (u : UserId) (now : Timestamp) (db : Database) :
    (removeMember c u now db).1 = .ok () := by
  unfold removeMember
  dsimp only
  split <;> rfl

theorem unsubscribe_ok (c : ConversationId) (u : UserId) (now : Timestamp) (db : Database) :
    (unsubscribe c u now db).1 = .ok () := by
  unfold unsubscribe
  dsimp only
  split <;> rfl

theorem mem_getMembers {c : ConversationId} {db : Database} {m : MemberRecord} :
    m ∈ getMembers c db ↔
      m ∈ db.conversationMembers ∧ m.conversationId = c ∧ m.removedAt = none := by
  simp [getMembers]

theorem mem_getSubscribers {c : ConversationId} {db : Database} {u : UserId} :
    u ∈ getSubscribers c db ↔ ∃ s ∈ db.channelSubscriptions,
      (s.conversationId = c ∧ s.unsubscribedAt = none) ∧ s.userId = u := by
  simp [getSubscribers, and_assoc]

theorem length_getMembers (c : ConversationId) (db : Database) :
    (getMembers c db).length = getMemberCount c db := by
  rw [getMembers, List.length_insertionSort, getMemberCount, List.countP_eq_length_filter]

theorem nodup_getMembers {db : Database} (h : db.Valid) (c : ConversationId) :
    ((getMembers c db).map (·.userId)).Nodup := by
  refine (((List.perm_insertionSort _ _).map _).nodup_iff).mpr ?_
  refine h.members_pk.nodup_map_filter fun r r' hr hr' he => ?_
  simp only [decide_eq_true_eq] at hr hr'
  exact Prod.ext (hr.1.trans hr'.1.symm) he

theorem nodup_getSubscribers {db : Database} (h : db.Valid) (c : ConversationId) :
    (getSubscribers c db).Nodup := by
  refine (((List.perm_insertionSort _ _).map _).nodup_iff).mpr ?_
  refine h.subscriptions_pk.nodup_map_filter fun r r' hr hr' he => ?_
  simp only [decide_eq_true_eq] at hr hr'
  exact Prod.ext (hr.1.trans hr'.1.symm) he

end ConversationRepository

/-- The calls of the repository, each one atomic. -/
inductive ConversationCall
  | createConversation (conv : ConversationRecord)
  | findById (convId : ConversationId)
  | addMember (convId : ConversationId) (userId : UserId) (role : MemberRole) (now : Timestamp)
  | removeMember (convId : ConversationId) (userId : UserId) (now : Timestamp)
  | getMembers (convId : ConversationId)
  | getConversationsForUser (userId : UserId)
  | isUserInConversation (convId : ConversationId) (userId : UserId)
  | getMember (convId : ConversationId) (userId : UserId)
  | subscribe (convId : ConversationId) (userId : UserId) (now : Timestamp)
  | unsubscribe (convId : ConversationId) (userId : UserId) (now : Timestamp)
  | getSubscribers (convId : ConversationId)
  | getMemberCount (convId : ConversationId)
  deriving DecidableEq, Repr

namespace ConversationCall

open ConversationRepository

@[reducible] def Reply : ConversationCall → Type
  | createConversation _ => VoidResult
  | findById _ => Option ConversationRecord
  | addMember .. => VoidResult
  | removeMember .. => VoidResult
  | getMembers _ => List MemberRecord
  | getConversationsForUser _ => List (ConversationRecord × Option Timestamp)
  | isUserInConversation .. => Bool
  | getMember .. => Option MemberRecord
  | subscribe .. => VoidResult
  | unsubscribe .. => VoidResult
  | getSubscribers _ => List UserId
  | getMemberCount _ => ℕ

def exec : (c : ConversationCall) → Database → c.Reply × Database
  | createConversation c, db => ConversationRepository.createConversation c db
  | findById c, db => (ConversationRepository.findById c db, db)
  | addMember c u r now, db => ConversationRepository.addMember c u r now db
  | removeMember c u now, db => ConversationRepository.removeMember c u now db
  | getMembers c, db => (ConversationRepository.getMembers c db, db)
  | getConversationsForUser u, db => (ConversationRepository.getConversationsForUser u db, db)
  | isUserInConversation c u, db => (ConversationRepository.isUserInConversation c u db, db)
  | getMember c u, db => (ConversationRepository.getMember c u db, db)
  | subscribe c u now, db => ConversationRepository.subscribe c u now db
  | unsubscribe c u now, db => ConversationRepository.unsubscribe c u now db
  | getSubscribers c, db => (ConversationRepository.getSubscribers c db, db)
  | getMemberCount c, db => (ConversationRepository.getMemberCount c db, db)

/-- What a call can do: nothing, a new conversation, or a change of one membership and a bump. -/
inductive Effect (db : Database) : Database → Prop
  | same : Effect db db
  | create (conv : ConversationRecord)
      (hnew : ∀ c ∈ db.conversations, c.conversationId ≠ conv.conversationId)
      (hu : ∃ u ∈ db.users, u.userId = conv.createdBy) :
      Effect db { db with conversations := db.conversations ++ [conv] }
  | bump (convId : ConversationId) (db' : Database) (h : Effect db db') :
      Effect db (bumpMembershipVersion convId db')
  | updateMember (p : MemberRecord → Bool) (f : MemberRecord → MemberRecord)
      (hf : ∀ m, (f m).key = m.key) :
      Effect db { db with conversationMembers := updateWhere p f db.conversationMembers }
  | insertMember (m : MemberRecord) (hnew : ∀ m' ∈ db.conversationMembers, m'.key ≠ m.key)
      (hc : ∃ c ∈ db.conversations, c.conversationId = m.conversationId)
      (hu : ∃ u ∈ db.users, u.userId = m.userId) :
      Effect db { db with conversationMembers := db.conversationMembers ++ [m] }
  | updateSubscription (p : SubscriptionRow → Bool) (f : SubscriptionRow → SubscriptionRow)
      (hf : ∀ s, (f s).key = s.key) :
      Effect db { db with channelSubscriptions := updateWhere p f db.channelSubscriptions }
  | insertSubscription (s : SubscriptionRow)
      (hnew : ∀ s' ∈ db.channelSubscriptions, s'.key ≠ s.key)
      (hc : ∃ c ∈ db.conversations, c.conversationId = s.conversationId)
      (hu : ∃ u ∈ db.users, u.userId = s.userId) :
      Effect db { db with channelSubscriptions := db.channelSubscriptions ++ [s] }

theorem upsertMember_effect {c : ConversationId} {u : UserId} {r : MemberRole} {now : Timestamp}
    {db db' : Database} (h : upsertMember c u r now db = .ok db') : Effect db db' := by
  rcases upsertMember_ok h with ⟨-, rfl⟩ | ⟨hnew, hc, hu, rfl⟩
  · exact .updateMember _ _ fun _ => rfl
  · exact .insertMember _ hnew hc hu

theorem upsertSubscription_effect {c : ConversationId} {u : UserId} {now : Timestamp}
    {db db' : Database} (h : upsertSubscription c u now db = .ok db') : Effect db db' := by
  rcases upsertSubscription_ok h with ⟨-, rfl⟩ | ⟨hnew, hc, hu, rfl⟩
  · exact .updateSubscription _ _ fun _ => rfl
  · exact .insertSubscription _ hnew hc hu

theorem exec_effect (c : ConversationCall) (db : Database) : Effect db (c.exec db).2 := by
  cases c with
  | createConversation conv =>
    rcases createConversation_cases conv db with ⟨-, e, he⟩ | ⟨hnew, hu, he⟩
    · rw [exec, he]
      exact .same
    · rw [exec, he]
      exact .create conv hnew hu
  | findById c => exact .same
  | addMember c u r now =>
    simp only [exec, ConversationRepository.addMember]
    split
    · exact .bump c _ (upsertMember_effect ‹_›)
    · exact .same
  | removeMember c u now =>
    simp only [exec, ConversationRepository.removeMember]
    split
    · exact .bump c _ (.updateMember _ _ fun _ => rfl)
    · exact .updateMember _ _ fun _ => rfl
  | getMembers c => exact .same
  | getConversationsForUser u => exact .same
  | isUserInConversation c u => exact .same
  | getMember c u => exact .same
  | subscribe c u now =>
    simp only [exec, ConversationRepository.subscribe]
    split
    · exact .bump c _ (upsertSubscription_effect ‹_›)
    · exact .same
  | unsubscribe c u now =>
    simp only [exec, ConversationRepository.unsubscribe]
    split
    · exact .bump c _ (.updateSubscription _ _ fun _ => rfl)
    · exact .updateSubscription _ _ fun _ => rfl
  | getSubscribers c => exact .same
  | getMemberCount c => exact .same

variable {db db' : Database}

theorem Effect.frame (he : Effect db db') : ∃ cs ms ss, db' = { db with
    conversations := cs, conversationMembers := ms, channelSubscriptions := ss } := by
  induction he with
  | bump c _ _ ih => obtain ⟨cs, ms, ss, rfl⟩ := ih; exact ⟨_, _, _, rfl⟩
  | _ => exact ⟨_, _, _, rfl⟩

theorem Effect.keeps_conversation (he : Effect db db') {r : ConversationRecord}
    (hr : r ∈ db.conversations) : ∃ r' ∈ db'.conversations,
      r'.conversationId = r.conversationId ∧ r'.type = r.type ∧ r'.createdBy = r.createdBy := by
  induction he with
  | create conv => exact ⟨r, List.mem_append_left _ hr, rfl, rfl, rfl⟩
  | bump c db' _ ih =>
    obtain ⟨r', hr', hsame⟩ := ih
    refine ⟨_, mem_updateWhere.mpr ⟨r', hr', rfl⟩, ?_⟩
    split
    · exact hsame
    · exact hsame
  | _ => exact ⟨r, hr, rfl, rfl, rfl⟩

def leaves (k : ConversationId × UserId) : ConversationCall → Bool
  | removeMember c u _ => (c, u) = k
  | unsubscribe c u _ => (c, u) = k
  | _ => false

theorem joined_bump {t : ConversationType} {k : ConversationId × UserId} (c : ConversationId) :
    Joined t k (bumpMembershipVersion c db) ↔ Joined t k db := by
  cases t <;> rfl

theorem joined_updateMember {t : ConversationType} {k : ConversationId × UserId}
    {p : MemberRecord → Bool} {f : MemberRecord → MemberRecord}
    (hf : ∀ m, m.key = k → m.removedAt = none → p m → (f m).key = k ∧ (f m).removedAt = none)
    (h : Joined t k db) :
    Joined t k { db with conversationMembers := updateWhere p f db.conversationMembers } := by
  have hm : (∃ m ∈ db.conversationMembers, m.key = k ∧ m.removedAt = none) →
      ∃ m ∈ updateWhere p f db.conversationMembers, m.key = k ∧ m.removedAt = none := by
    rintro ⟨m, hm, hk, hr⟩
    refine ⟨_, mem_updateWhere.mpr ⟨m, hm, rfl⟩, ?_⟩
    split
    · exact hf m hk hr ‹_›
    · exact ⟨hk, hr⟩
  cases t with
  | channel => exact h
  | dm => exact hm h
  | group => exact hm h

theorem joined_updateSubscription {t : ConversationType} {k : ConversationId × UserId}
    {p : SubscriptionRow → Bool} {f : SubscriptionRow → SubscriptionRow}
    (hf : ∀ s, s.key = k → s.unsubscribedAt = none → p s →
      (f s).key = k ∧ (f s).unsubscribedAt = none) (h : Joined t k db) :
    Joined t k { db with channelSubscriptions := updateWhere p f db.channelSubscriptions } := by
  cases t with
  | channel =>
    obtain ⟨s, hs, hk, hr⟩ := h
    refine ⟨_, mem_updateWhere.mpr ⟨s, hs, rfl⟩, ?_⟩
    split
    · exact hf s hk hr ‹_›
    · exact ⟨hk, hr⟩
  | dm => exact h
  | group => exact h

theorem exec_joined (c : ConversationCall) {t : ConversationType} {k : ConversationId × UserId}
    (hc : ¬ c.leaves k) (h : Joined t k db) : Joined t k (c.exec db).2 := by
  cases c with
  | createConversation conv =>
    rcases createConversation_cases conv db with ⟨-, e, he⟩ | ⟨-, -, he⟩
    · rwa [exec, he]
    · rw [exec, he]
      cases t <;> exact h
  | addMember c u r now =>
    simp only [exec, ConversationRepository.addMember]
    split
    · rename_i hup
      rw [joined_bump]
      rcases upsertMember_ok hup with ⟨-, rfl⟩ | ⟨-, -, -, rfl⟩
      · exact joined_updateMember (fun m hk _ _ => ⟨hk, rfl⟩) h
      · cases t with
        | channel => exact h
        | _ =>
          obtain ⟨m, hm, hk⟩ := h
          exact ⟨m, List.mem_append_left _ hm, hk⟩
    · exact h
  | removeMember c u now =>
    have hne : ∀ m : MemberRecord, m.key = k →
        ¬ decide (m.key = (c, u) ∧ m.removedAt = none) := by
      intro m hk hp
      simp only [decide_eq_true_eq] at hp
      exact hc (by simpa [leaves] using hp.1.symm.trans hk)
    simp only [exec, ConversationRepository.removeMember]
    split
    · exact (joined_bump c).mpr (joined_updateMember (fun m hk _ hp => absurd hp (hne m hk)) h)
    · exact joined_updateMember (fun m hk _ hp => absurd hp (hne m hk)) h
  | subscribe c u now =>
    simp only [exec, ConversationRepository.subscribe]
    split
    · rename_i hup
      rw [joined_bump]
      rcases upsertSubscription_ok hup with ⟨-, rfl⟩ | ⟨-, -, -, rfl⟩
      · exact joined_updateSubscription (fun s hk _ _ => ⟨hk, rfl⟩) h
      · cases t with
        | channel =>
          obtain ⟨s, hs, hk⟩ := h
          exact ⟨s, List.mem_append_left _ hs, hk⟩
        | _ => exact h
    · exact h
  | unsubscribe c u now =>
    have hne : ∀ s : SubscriptionRow, s.key = k →
        ¬ decide (s.key = (c, u) ∧ s.unsubscribedAt = none) := by
      intro s hk hp
      simp only [decide_eq_true_eq] at hp
      exact hc (by simpa [leaves] using hp.1.symm.trans hk)
    simp only [exec, ConversationRepository.unsubscribe]
    split
    · exact (joined_bump c).mpr
        (joined_updateSubscription (fun s hk _ hp => absurd hp (hne s hk)) h)
    · exact joined_updateSubscription (fun s hk _ hp => absurd hp (hne s hk)) h
  | _ => exact h

def writesMembers : ConversationCall → Bool
  | addMember .. => true
  | removeMember .. => true
  | _ => false

def writesSubscriptions : ConversationCall → Bool
  | subscribe .. => true
  | unsubscribe .. => true
  | _ => false

theorem exec_frame (c : ConversationCall) (hc : ∀ conv, c ≠ .createConversation conv) :
    ((c.exec db).2.conversations = db.conversations ∨
      ∃ id, (c.exec db).2.conversations = (bumpMembershipVersion id db).conversations) ∧
    (c.writesMembers = false → (c.exec db).2.conversationMembers = db.conversationMembers) ∧
    (c.writesSubscriptions = false →
      (c.exec db).2.channelSubscriptions = db.channelSubscriptions) := by
  cases c with
  | createConversation conv => exact absurd rfl (hc conv)
  | addMember c u r now =>
    simp only [exec, ConversationRepository.addMember]
    split
    · rename_i hup
      rcases upsertMember_ok hup with ⟨-, rfl⟩ | ⟨-, -, -, rfl⟩ <;>
        exact ⟨.inr ⟨c, rfl⟩, by simp [writesMembers], fun _ => rfl⟩
    · exact ⟨.inl rfl, fun _ => rfl, fun _ => rfl⟩
  | subscribe c u now =>
    simp only [exec, ConversationRepository.subscribe]
    split
    · rename_i hup
      rcases upsertSubscription_ok hup with ⟨-, rfl⟩ | ⟨-, -, -, rfl⟩ <;>
        exact ⟨.inr ⟨c, rfl⟩, fun _ => rfl, by simp [writesSubscriptions]⟩
    · exact ⟨.inl rfl, fun _ => rfl, fun _ => rfl⟩
  | removeMember c u now =>
    simp only [exec, ConversationRepository.removeMember]
    split
    · exact ⟨.inr ⟨c, rfl⟩, by simp [writesMembers], fun _ => rfl⟩
    · exact ⟨.inl rfl, by simp [writesMembers], fun _ => rfl⟩
  | unsubscribe c u now =>
    simp only [exec, ConversationRepository.unsubscribe]
    split
    · exact ⟨.inr ⟨c, rfl⟩, fun _ => rfl, by simp [writesSubscriptions]⟩
    · exact ⟨.inl rfl, fun _ => rfl, by simp [writesSubscriptions]⟩
  | _ => exact ⟨.inl rfl, fun _ => rfl, fun _ => rfl⟩

theorem exec_members {c : ConversationCall} (hc : c.writesMembers = false) :
    (c.exec db).2.conversationMembers = db.conversationMembers := by
  cases c with
  | createConversation conv =>
    rcases createConversation_cases conv db with ⟨-, e, he⟩ | ⟨-, -, he⟩ <;> rw [exec, he]
  | _ => exact (exec_frame _ (by simp)).2.1 hc

theorem exec_subscriptions {c : ConversationCall} (hc : c.writesSubscriptions = false) :
    (c.exec db).2.channelSubscriptions = db.channelSubscriptions := by
  cases c with
  | createConversation conv =>
    rcases createConversation_cases conv db with ⟨-, e, he⟩ | ⟨-, -, he⟩ <;> rw [exec, he]
  | _ => exact (exec_frame _ (by simp)).2.2 hc

theorem exec_subscribed (c : ConversationCall) {k : ConversationId × UserId}
    (hc : ∀ now, c ≠ .unsubscribe k.1 k.2 now) (h : Joined .channel k db) :
    Joined .channel k (c.exec db).2 := by
  cases c with
  | removeMember c u now =>
    obtain ⟨x, hx, hopen⟩ := h
    refine ⟨x, ?_, hopen⟩
    rwa [exec_subscriptions (c := .removeMember c u now) rfl]
  | unsubscribe c u now =>
    refine exec_joined _ ?_ h
    intro hl
    obtain rfl : (c, u) = k := of_decide_eq_true hl
    exact hc now rfl
  | _ => exact exec_joined _ (by simp [leaves]) h

theorem member_of_exec (c : ConversationCall) {m : MemberRecord}
    (hm : m ∈ (c.exec db).2.conversationMembers) (hr : m.removedAt = none) :
    m ∈ db.conversationMembers ∨ ∃ conv u now, c = .addMember conv u m.role now ∧
      m.key = (conv, u) := by
  cases c with
  | addMember c u r now =>
    simp only [exec, ConversationRepository.addMember] at hm
    split at hm
    · rename_i hup
      rcases upsertMember_ok hup with ⟨-, rfl⟩ | ⟨-, -, -, rfl⟩
      · obtain ⟨m₀, hm₀, rfl⟩ := mem_updateWhere.mp hm
        split at hr
        · rename_i hk
          rw [if_pos hk]
          exact .inr ⟨c, u, now, rfl, of_decide_eq_true hk⟩
        · rename_i hk
          exact .inl (by simpa [hk] using hm₀)
      · refine (List.mem_append.mp hm).imp_right fun hm => ?_
        rw [List.mem_singleton.mp hm]
        exact ⟨c, u, now, rfl, rfl⟩
    · exact .inl hm
  | removeMember c u now =>
    left
    have hmem : m ∈ updateWhere (fun m => decide (m.key = (c, u) ∧ m.removedAt = none))
        (fun m => { m with removedAt := some now }) db.conversationMembers := by
      simp only [exec, ConversationRepository.removeMember] at hm
      split at hm
      · exact hm
      · exact hm
    obtain ⟨m₀, hm₀, rfl⟩ := mem_updateWhere.mp hmem
    split at hr
    · cases hr
    · rename_i hk
      simpa [hk] using hm₀
  | _ =>
    rw [exec_members] at hm
    · exact .inl hm
    · rfl

theorem subscription_of_exec (c : ConversationCall) {x : SubscriptionRow}
    (hx : x ∈ (c.exec db).2.channelSubscriptions) (ho : x.unsubscribedAt = none) :
    x ∈ db.channelSubscriptions ∨ ∃ conv u now, c = .subscribe conv u now ∧ x.key = (conv, u) := by
  cases c with
  | subscribe c u now =>
    simp only [exec, ConversationRepository.subscribe] at hx
    split at hx
    · rename_i hup
      rcases upsertSubscription_ok hup with ⟨-, rfl⟩ | ⟨-, -, -, rfl⟩
      · obtain ⟨x₀, hx₀, rfl⟩ := mem_updateWhere.mp hx
        split at ho
        · rename_i hk
          rw [if_pos hk]
          exact .inr ⟨c, u, now, rfl, of_decide_eq_true hk⟩
        · rename_i hk
          exact .inl (by simpa [hk] using hx₀)
      · refine (List.mem_append.mp hx).imp_right fun hx => ?_
        rw [List.mem_singleton.mp hx]
        exact ⟨c, u, now, rfl, rfl⟩
    · exact .inl hx
  | unsubscribe c u now =>
    left
    have hmem : x ∈ updateWhere (fun s => decide (s.key = (c, u) ∧ s.unsubscribedAt = none))
        (fun s => { s with unsubscribedAt := some now }) db.channelSubscriptions := by
      simp only [exec, ConversationRepository.unsubscribe] at hx
      split at hx
      · exact hx
      · exact hx
    obtain ⟨x₀, hx₀, rfl⟩ := mem_updateWhere.mp hmem
    split at ho
    · cases ho
    · rename_i hk
      simpa [hk] using hx₀
  | _ =>
    rw [exec_subscriptions] at hx
    · exact .inl hx
    · rfl

theorem conversation_of_exec (c : ConversationCall) {r : ConversationRecord}
    (hr : r ∈ (c.exec db).2.conversations) :
    (∃ r₀ ∈ db.conversations, r₀.conversationId = r.conversationId ∧ r₀.type = r.type) ∨
      c = .createConversation r ∧
        ∀ r₀ ∈ db.conversations, r₀.conversationId ≠ r.conversationId := by
  by_cases hc : ∃ conv, c = .createConversation conv
  · obtain ⟨conv, rfl⟩ := hc
    rcases createConversation_cases conv db with ⟨-, e, he⟩ | ⟨hnew, -, he⟩
    · rw [exec, he] at hr
      exact .inl ⟨r, hr, rfl, rfl⟩
    · rw [exec, he] at hr
      rcases List.mem_append.mp hr with hr | hr
      · exact .inl ⟨r, hr, rfl, rfl⟩
      · obtain rfl := List.mem_singleton.mp hr
        exact .inr ⟨rfl, hnew⟩
  · left
    rcases (exec_frame c (not_exists.mp hc)).1 with he | ⟨id, he⟩
    · exact ⟨r, he ▸ hr, rfl, rfl⟩
    · obtain ⟨r₀, hr₀, rfl⟩ := mem_updateWhere.mp (he ▸ hr)
      refine ⟨r₀, hr₀, ?_⟩
      split
      · exact ⟨rfl, rfl⟩
      · exact ⟨rfl, rfl⟩

theorem Effect.valid (he : Effect db db') (h : db.Valid) : db'.Valid := by
  induction he with
  | same => exact h
  | create conv hnew hu =>
    exact { h with
      conversations_pk := uniqueOn_append_singleton.mpr ⟨h.conversations_pk, hnew⟩
      conversations_user := h.conversations_user.append_singleton hu
      members_conversation := h.members_conversation.append_parents _
      subscriptions_conversation := h.subscriptions_conversation.append_parents _
      envelopes_conversation := h.envelopes_conversation.append_parents _
      attachments_conversation := h.attachments_conversation.append_parents _ }
  | bump c db' _ hv =>
    exact { hv with
      conversations_pk := hv.conversations_pk.updateWhere fun _ => rfl
      conversations_user := hv.conversations_user.updateWhere fun _ => rfl
      members_conversation := hv.members_conversation.updateWhere_parents fun _ => rfl
      subscriptions_conversation := hv.subscriptions_conversation.updateWhere_parents fun _ => rfl
      envelopes_conversation := hv.envelopes_conversation.updateWhere_parents fun _ => rfl
      attachments_conversation := hv.attachments_conversation.updateWhere_parents fun _ => rfl }
  | updateMember p f hf =>
    exact { h with
      members_pk := h.members_pk.updateWhere hf
      members_conversation := h.members_conversation.updateWhere fun m => congrArg Prod.fst (hf m)
      members_user := h.members_user.updateWhere fun m => congrArg Prod.snd (hf m) }
  | insertMember m hnew hc hu =>
    exact { h with
      members_pk := uniqueOn_append_singleton.mpr ⟨h.members_pk, hnew⟩
      members_conversation := h.members_conversation.append_singleton hc
      members_user := h.members_user.append_singleton hu }
  | updateSubscription p f hf =>
    exact { h with
      subscriptions_pk := h.subscriptions_pk.updateWhere hf
      subscriptions_conversation :=
        h.subscriptions_conversation.updateWhere fun s => congrArg Prod.fst (hf s)
      subscriptions_user := h.subscriptions_user.updateWhere fun s => congrArg Prod.snd (hf s) }
  | insertSubscription s hnew hc hu =>
    exact { h with
      subscriptions_pk := uniqueOn_append_singleton.mpr ⟨h.subscriptions_pk, hnew⟩
      subscriptions_conversation := h.subscriptions_conversation.append_singleton hc
      subscriptions_user := h.subscriptions_user.append_singleton hu }

theorem exec_participant (c : ConversationCall) (hv : db.Valid) {conv : ConversationId} {u : UserId}
    (hc : ¬ c.leaves (conv, u)) (h : ConversationRepository.isUserInConversation conv u db) :
    ConversationRepository.isUserInConversation conv u (c.exec db).2 := by
  obtain ⟨r, hr, rfl, hj⟩ := (isUserInConversation_iff hv).mp h
  obtain ⟨r', hr', hid, ht, -⟩ := (c.exec_effect db).keeps_conversation hr
  refine (isUserInConversation_iff ((c.exec_effect db).valid hv)).mpr ⟨r', hr', hid, ?_⟩
  exact ht ▸ c.exec_joined hc hj

end ConversationCall

end VoxServer
