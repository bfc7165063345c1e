import Mathlib.Data.Finset.Image
import VoxServer.Accounts.Deletion
import VoxServer.Conversations.Channels

/-! # The membership version

Each statement that changes who takes part in a conversation bumps the version of the
conversation in the same call, so whole operations do. Only the deletion of a user takes
memberships and subscriptions away without a bump.
-/

namespace VoxServer.Membership

open Interleaving Prog Table ConversationRepository

/-- The active members of a conversation, with their roles. -/
def activeMembers (conv : ConversationId) (db : Database) : Finset (UserId × MemberRole) :=
  ((getMembers conv db).map fun m => (m.userId, m.role)).toFinset

def activeSubscribers (conv : ConversationId) (db : Database) : Finset UserId :=
  (getSubscribers conv db).toFinset

def versionOf (conv : ConversationId) (db : Database) : Option ℤ :=
  (findById conv db).map (·.membershipVersion)

/-- From one state to the next, the version of the conversation does not decrease, and if the
members, their roles or the subscribers have changed it is larger. -/
def Tracks (conv : ConversationId) (db db' : Database) : Prop :=
  ∀ v ∈ versionOf conv db, ∃ v' ∈ versionOf conv db', v ≤ v' ∧
    (activeMembers conv db' ≠ activeMembers conv db ∨
      activeSubscribers conv db' ≠ activeSubscribers conv db → v < v')

instance (conv : ConversationId) (db db' : Database) : Decidable (Tracks conv db db') :=
  inferInstanceAs (Decidable (∀ v ∈ versionOf conv db, _))

/-- The user is an active member or subscriber of the conversation. -/
def TakesPart (conv : ConversationId) (u : UserId) (db : Database) : Prop :=
  u ∈ (activeMembers conv db).image Prod.fst ∨ u ∈ activeSubscribers conv db

instance (conv : ConversationId) (u : UserId) (db : Database) : Decidable (TakesPart conv u db) :=
  inferInstanceAs (Decidable (_ ∨ _))

def deletedUser? : Op → Option UserId
  | .deleteUser u => some u
  | .single (.admin (.deleteUserRows u)) => some u
  | _ => none

section Views

variable {conv : ConversationId} {u : UserId} {db db' db'' : Database}

theorem mem_activeMembers {role : MemberRole} : (u, role) ∈ activeMembers conv db ↔
    ∃ m ∈ db.conversationMembers, m.key = (conv, u) ∧ m.role = role ∧ m.removedAt = none := by
  simp only [activeMembers, List.mem_toFinset, List.mem_map, mem_getMembers, Prod.mk.injEq,
    MemberRecord.key]
  constructor
  · rintro ⟨m, ⟨hm, hc, ho⟩, hu, hr⟩
    exact ⟨m, hm, ⟨hc, hu⟩, hr, ho⟩
  · rintro ⟨m, hm, ⟨hc, hu⟩, hr, ho⟩
    exact ⟨m, ⟨hm, hc, ho⟩, hu, hr⟩

theorem mem_activeSubscribers : u ∈ activeSubscribers conv db ↔
    ∃ s ∈ db.channelSubscriptions, s.key = (conv, u) ∧ s.unsubscribedAt = none := by
  simp only [activeSubscribers, List.mem_toFinset, mem_getSubscribers, SubscriptionRow.key,
    Prod.mk.injEq]
  constructor
  · rintro ⟨s, hs, ⟨hc, ho⟩, hu⟩
    exact ⟨s, hs, ⟨hc, hu⟩, ho⟩
  · rintro ⟨s, hs, ⟨hc, hu⟩, ho⟩
    exact ⟨s, hs, ⟨hc, ho⟩, hu⟩

theorem takesPart_iff : TakesPart conv u db ↔
    (∃ m ∈ db.conversationMembers, m.key = (conv, u) ∧ m.removedAt = none) ∨
      ∃ s ∈ db.channelSubscriptions, s.key = (conv, u) ∧ s.unsubscribedAt = none := by
  rw [TakesPart, mem_activeSubscribers, Finset.mem_image]
  refine or_congr_left ?_
  constructor
  · rintro ⟨⟨u, role⟩, hu, rfl⟩
    obtain ⟨m, hm, hk, -, ho⟩ := mem_activeMembers.mp hu
    exact ⟨m, hm, hk, ho⟩
  · rintro ⟨m, hm, hk, ho⟩
    exact ⟨(u, m.role), mem_activeMembers.mpr ⟨m, hm, hk, rfl, ho⟩, rfl⟩

theorem tracks_of_eq (hversion : ∀ v ∈ versionOf conv db, v ∈ versionOf conv db')
    (hm : getMembers conv db' = getMembers conv db)
    (hs : getSubscribers conv db' = getSubscribers conv db) : Tracks conv db db' := by
  intro v hv
  refine ⟨v, hversion v hv, le_rfl, ?_⟩
  simp [activeMembers, activeSubscribers, hm, hs]

theorem Tracks.refl (conv : ConversationId) (db : Database) : Tracks conv db db :=
  tracks_of_eq (fun _ hv => hv) rfl rfl

theorem Tracks.trans (h : Tracks conv db db') (h' : Tracks conv db' db'') :
    Tracks conv db db'' := by
  intro v hv
  obtain ⟨v', hv', hle, hlt⟩ := h v hv
  obtain ⟨v'', hv'', hle', hlt'⟩ := h' v' hv'
  refine ⟨v'', hv'', hle.trans hle', fun hchange => ?_⟩
  by_cases hfirst : activeMembers conv db' ≠ activeMembers conv db ∨
      activeSubscribers conv db' ≠ activeSubscribers conv db
  · exact (hlt hfirst).trans_le hle'
  · -- nothing has changed at first, so it has changed after that
    rw [not_or, not_not, not_not] at hfirst
    rw [← hfirst.1, ← hfirst.2] at hchange
    exact hle.trans_lt (hlt' hchange)

end Views

section Calls

variable {conv : ConversationId} {db db' : Database}

theorem versionOf_bump (c : ConversationId) (h : db'.conversations = db.conversations) :
    versionOf conv (bumpMembershipVersion c db') =
      (versionOf conv db).map fun v => if conv = c then v + 1 else v := by
  have hfind : findById conv (bumpMembershipVersion c db') = (findById conv db).map fun r =>
      if decide (r.conversationId = c) then { r with membershipVersion := r.membershipVersion + 1 }
      else r := by
    simp only [findById, bumpMembershipVersion, h]
    exact find?_updateWhere fun _ => rfl
  rw [versionOf, hfind, versionOf, Option.map_map, Option.map_map]
  cases hf : findById conv db with
  | none => rfl
  | some r =>
    obtain ⟨-, rfl⟩ := findById_eq_some hf
    simp only [Option.map_some, Function.comp_apply, decide_eq_true_eq]
    split <;> rfl

/-- A bump accounts for any change in its conversation; other conversations have not changed. -/
theorem tracks_bump {c : ConversationId} (h : db'.conversations = db.conversations)
    (hm : conv ≠ c → getMembers conv db' = getMembers conv db)
    (hs : conv ≠ c → getSubscribers conv db' = getSubscribers conv db) :
    Tracks conv db (bumpMembershipVersion c db') := by
  by_cases hc : conv = c
  · intro v hv
    refine ⟨v + 1, ?_, by omega, fun _ => by omega⟩
    rw [versionOf_bump c h, hv]
    simp [hc]
  · refine tracks_of_eq (fun v hv => ?_) (hm hc) (hs hc)
    rw [versionOf_bump c h, hv]
    simp [hc]

theorem getMembers_update {k : ConversationId × UserId} (hk : conv ≠ k.1)
    {p : MemberRecord → Bool} {f : MemberRecord → MemberRecord} (hp : ∀ m, p m → m.key = k)
    (hf : ∀ m, (f m).conversationId = m.conversationId) :
    getMembers conv { db with conversationMembers := updateWhere p f db.conversationMembers } =
      getMembers conv db := by
  refine congrArg (List.insertionSort _) (filter_updateWhere_of_not fun m _ hm => ?_)
  have hne : m.conversationId ≠ conv := fun he => hk (he.symm.trans (congrArg Prod.fst (hp m hm)))
  simp [hf m, hne]

theorem getSubscribers_update {k : ConversationId × UserId} (hk : conv ≠ k.1)
    {p : SubscriptionRow → Bool} {f : SubscriptionRow → SubscriptionRow}
    (hp : ∀ s, p s → s.key = k) (hf : ∀ s, (f s).conversationId = s.conversationId) :
    getSubscribers conv
        { db with channelSubscriptions := updateWhere p f db.channelSubscriptions } =
      getSubscribers conv db := by
  unfold getSubscribers
  refine congrArg (List.map _ ∘ List.insertionSort _) (filter_updateWhere_of_not fun s _ hs => ?_)
  have hne : s.conversationId ≠ conv := fun he => hk (he.symm.trans (congrArg Prod.fst (hp s hs)))
  simp [hf s, hne]

theorem tracks_conversations (c : ConversationCall) : Tracks conv db (c.exec db).2 := by
  cases c with
  | createConversation r =>
    rcases createConversation_cases r db with ⟨-, e, he⟩ | ⟨-, -, he⟩
    · rw [ConversationCall.exec, he]
      exact .refl conv db
    · rw [ConversationCall.exec, he]
      refine tracks_of_eq (fun v hv => ?_) rfl rfl
      obtain ⟨x, hx, rfl⟩ := Option.map_eq_some_iff.mp hv
      exact Option.map_eq_some_iff.mpr ⟨x, by simp only [findById] at hx ⊢; simp [hx], rfl⟩
  | addMember c u role now =>
    simp only [ConversationCall.exec, ConversationRepository.addMember]
    split
    · rename_i hup
      rcases upsertMember_ok hup with ⟨-, rfl⟩ | ⟨-, -, -, rfl⟩
      · refine tracks_bump rfl (fun hc => ?_) fun _ => rfl
        exact getMembers_update (k := (c, u)) hc (fun m hm => of_decide_eq_true hm) fun _ => rfl
      · refine tracks_bump rfl (fun hc => ?_) fun _ => rfl
        simp [getMembers, Ne.symm hc]
    · exact .refl conv db
  | removeMember c u now =>
    simp only [ConversationCall.exec, ConversationRepository.removeMember]
    split
    · refine tracks_bump rfl (fun hc => ?_) fun _ => rfl
      exact getMembers_update (k := (c, u)) hc (fun m hm => (of_decide_eq_true hm).1) fun _ => rfl
    · rename_i hcount
      rw [updateWhere_eq_self (List.countP_eq_zero.mp (by omega))]
      exact .refl conv db
  | subscribe c u now =>
    simp only [ConversationCall.exec, ConversationRepository.subscribe]
    split
    · rename_i hup
      rcases upsertSubscription_ok hup with ⟨-, rfl⟩ | ⟨-, -, -, rfl⟩
      · refine tracks_bump rfl (fun _ => rfl) fun hc => ?_
        exact getSubscribers_update (k := (c, u)) hc (fun s hs => of_decide_eq_true hs) fun _ => rfl
      · refine tracks_bump rfl (fun _ => rfl) fun hc => ?_
        simp [getSubscribers, Ne.symm hc]
    · exact .refl conv db
  | unsubscribe c u now =>
    simp only [ConversationCall.exec, ConversationRepository.unsubscribe]
    split
    · refine tracks_bump rfl (fun _ => rfl) fun hc => ?_
      exact getSubscribers_update (k := (c, u)) hc (fun s hs => (of_decide_eq_true hs).1)
        fun _ => rfl
    · rename_i hcount
      rw [updateWhere_eq_self (List.countP_eq_zero.mp (by omega))]
      exact .refl conv db
  | _ => exact .refl conv db

theorem tracks_exec (cfg : ServerConfig) {c : Call} {s : Server} (ha : ¬ c.isAdmin) :
    Tracks conv s.db (c.exec cfg s).2.db := by
  by_cases hc : ∃ a, c = .conversations a
  · obtain ⟨a, rfl⟩ := hc
    exact tracks_conversations a
  · obtain ⟨hm, hs⟩ := Call.exec_memberships cfg (s := s) (not_exists.mp hc) ha
    refine tracks_of_eq (fun v hv => ?_) ?_ ?_
    · rwa [versionOf, findById, Call.exec_conversations cfg (not_exists.mp hc)]
    · rw [getMembers, hm, getMembers]
    · rw [getSubscribers, hs, getSubscribers]

end Calls

section Deletion

variable {conv : ConversationId} {u : UserId} {db : Database}

theorem not_takesPart_withoutUser : ¬ TakesPart conv u (AdminService.withoutUser u db) := by
  rw [takesPart_iff]
  rintro (⟨m, hm, hk, -⟩ | ⟨s, hs, hk, -⟩)
  · exact (mem_deleteWhere.mp hm).2 (decide_eq_true (congrArg Prod.snd hk))
  · exact (mem_deleteWhere.mp hs).2 (decide_eq_true (congrArg Prod.snd hk))

theorem tracks_withoutUser (hv : db.Valid) :
    Tracks conv db (AdminService.withoutUser u db) ↔ ¬ TakesPart conv u db := by
  constructor
  · intro h hpart
    have hconv : ∃ r ∈ db.conversations, r.conversationId = conv := by
      rcases takesPart_iff.mp hpart with ⟨m, hm, hk, -⟩ | ⟨s, hs, hk, -⟩
      · obtain ⟨r, hr, hid⟩ := hv.members_conversation m hm
        exact ⟨r, hr, hid.trans (congrArg Prod.fst hk)⟩
      · obtain ⟨r, hr, hid⟩ := hv.subscriptions_conversation s hs
        exact ⟨r, hr, hid.trans (congrArg Prod.fst hk)⟩
    obtain ⟨r, hr, hid⟩ := hconv
    have hfind : findById conv db = some r := by
      refine hv.conversations_pk.find?_eq_some hr (decide_eq_true hid) fun r' _ h => ?_
      exact (of_decide_eq_true h).trans hid.symm
    have hversion : versionOf conv db = some r.membershipVersion := by rw [versionOf, hfind]; rfl
    obtain ⟨v', hv', -, hlt⟩ := h _ hversion
    obtain rfl : r.membershipVersion = v' := Option.some.inj (hversion.symm.trans hv')
    refine absurd (hlt ?_) (lt_irrefl _)
    by_contra hsame
    rw [not_or, not_not, not_not] at hsame
    have hpart' : TakesPart conv u (AdminService.withoutUser u db) := by
      rwa [TakesPart, hsame.1, hsame.2]
    exact not_takesPart_withoutUser hpart'
  · intro hpart
    have hno : (∀ m ∈ db.conversationMembers, m.key = (conv, u) → m.removedAt ≠ none) ∧
        ∀ s ∈ db.channelSubscriptions, s.key = (conv, u) → s.unsubscribedAt ≠ none := by
      rw [takesPart_iff, not_or] at hpart
      exact ⟨fun m hm hk ho => hpart.1 ⟨m, hm, hk, ho⟩, fun s hs hk ho => hpart.2 ⟨s, hs, hk, ho⟩⟩
    refine tracks_of_eq (fun v hv => hv) ?_ ?_
    · simp only [getMembers, AdminService.withoutUser, deleteWhere, List.filter_filter]
      refine congrArg _ (List.filter_congr fun m hm => ?_)
      have hm' := hno.1 m hm
      grind [MemberRecord.key]
    · simp only [getSubscribers, AdminService.withoutUser, deleteWhere, List.filter_filter]
      refine congrArg (List.map _ ∘ List.insertionSort _) (List.filter_congr fun s hs => ?_)
      have hs' := hno.2 s hs
      grind [SubscriptionRow.key]

theorem exists_user_of_takesPart (hv : db.Valid) (h : TakesPart conv u db) :
    ∃ x ∈ db.users, x.userId = u := by
  rcases takesPart_iff.mp h with ⟨m, hm, hk, -⟩ | ⟨s, hs, hk, -⟩
  · obtain ⟨x, hx, hid⟩ := hv.members_user m hm
    exact ⟨x, hx, hid.trans (congrArg Prod.snd hk)⟩
  · obtain ⟨x, hx, hid⟩ := hv.subscriptions_user s hs
    exact ⟨x, hx, hid.trans (congrArg Prod.snd hk)⟩

end Deletion

section Operations

variable (cfg : ServerConfig) {s : Server}

theorem not_isAdmin_of_mayCall {o : Op} {c : Call} (ho : deletedUser? o = none)
    (hc : o.mayCall c) : ¬ c.isAdmin := by
  intro ha
  cases c with
  | admin a =>
    cases a with | deleteUserRows u =>
    cases o with
    | single c' =>
      obtain rfl : .admin (.deleteUserRows u) = c' := of_decide_eq_true hc
      cases ho
    | deleteUser u => cases ho
    | _ => cases hc
  | _ => cases ha

theorem tracks_perform_iff (hv : s.db.Valid) (o : Op) (conv : ConversationId) :
    Tracks conv s.db ((o.code cfg).run (Call.exec cfg) s).2.db ↔
      ∀ u ∈ deletedUser? o, Accounts.Detached u s.db → ¬ TakesPart conv u s.db := by
  cases ho : deletedUser? o with
  | none =>
    refine iff_of_true ?_ (by simp)
    refine Only.ends (I := fun s' : Server => Tracks conv s.db s'.db) (Op.code_only cfg o) ?_
      (.refl _ _)
    intro c s' hc h
    exact h.trans (tracks_exec cfg (not_isAdmin_of_mayCall ho hc))
  | some u =>
    simp only [Option.mem_some_iff, forall_eq']
    have hrun : ((o.code cfg).run (Call.exec cfg) s).2.db = AdminService.withoutUser u s.db ∧
          Accounts.Detached u s.db ∨
        ((o.code cfg).run (Call.exec cfg) s).2.db = s.db ∧
          ((∃ x ∈ s.db.users, x.userId = u) → ¬ Accounts.Detached u s.db) := by
      cases o with
      | deleteUser u =>
        cases ho
        rcases Accounts.deleteUser_cases cfg u hv with ⟨-, hd, he⟩ | ⟨hd, e, he⟩
        · exact .inl ⟨by rw [Op.code, he], hd⟩
        · exact .inr ⟨by rw [Op.code, he], hd⟩
      | single c =>
        cases c with
        | admin a =>
          cases a with | deleteUserRows u =>
          cases ho
          by_cases hd : Accounts.Detached u s.db
          · refine .inl ⟨?_, hd⟩
            simp [Op.code, perform, Call.exec, Call.onDb, AdminCall.exec,
              Accounts.ok_of_detached hv hd]
          · refine .inr ⟨?_, fun _ => hd⟩
            cases hrows : AdminService.deleteUserRows u s.db with
            | ok db' => exact absurd (Accounts.detached_of_ok hv hrows) hd
            | error e => simp [Op.code, perform, Call.exec, Call.onDb, AdminCall.exec, hrows]
        | _ => cases ho
      | _ => cases ho
    rcases hrun with ⟨hdb, hd⟩ | ⟨hdb, hd⟩
    · rw [hdb, tracks_withoutUser hv]
      exact ⟨fun h _ => h, fun h => h hd⟩
    · rw [hdb]
      refine iff_of_true (.refl _ _) fun hdet hpart => ?_
      exact hd (exists_user_of_takesPart hv hpart) hdet

end Operations

/-- In every state that is reached, and for every operation, the version of a conversation tracks
its members and subscribers exactly if the operation deletes nobody who takes part, or cannot. -/
theorem version_tracks_iff (cfg : ServerConfig) {init : Server} (hv : init.db.Valid)
    (acts : List Act) (o : Op) (conv : ConversationId) :
    Tracks conv (serve cfg init acts).state.db
        ((o.code cfg).run (Call.exec cfg) (serve cfg init acts).state).2.db ↔
      ∀ u ∈ deletedUser? o, Accounts.Detached u (serve cfg init acts).state.db →
        ¬ TakesPart conv u (serve cfg init acts).state.db :=
  tracks_perform_iff cfg (serve_valid cfg hv acts).1 o conv

/-- One user registers and creates a direct conversation with a second one, who has registered
too. -/
def registerBoth : List Act :=
  registerAlice ++
    .spawn (.register ⟨"bob", "p", "d", "", "k", "k", "k", "w", "w", "w"⟩ (some "s") "b" "d"
      ⟨"t2", "r2", "s2"⟩) :: List.replicate 6 (.run 1) ++
    .spawn (.createDm "a" "b" "a" "c") :: List.replicate 4 (.run 2)

/-- The creator of a conversation cannot be deleted, so nothing changes. -/
theorem deleteCreator_tracked :
    TakesPart "c" "a" (serve default {} registerBoth).state.db ∧
    Tracks "c" (serve default {} registerBoth).state.db
      (((Op.deleteUser "a").code default).run (Call.exec default)
        (serve default {} registerBoth).state).2.db :=
  ⟨by decide, (version_tracks_iff default (by decide) registerBoth (.deleteUser "a") "c").mpr
    (by decide)⟩

/-- The other participant is deleted, and the version stays. -/
theorem deleteParticipant_untracked :
    versionOf "c" (serve default {} registerBoth).state.db = some 2 ∧
    ("b", .member) ∈ activeMembers "c" (serve default {} registerBoth).state.db ∧
    versionOf "c" (((Op.deleteUser "b").code default).run (Call.exec default)
      (serve default {} registerBoth).state).2.db = some 2 ∧
    activeMembers "c" (((Op.deleteUser "b").code default).run (Call.exec default)
      (serve default {} registerBoth).state).2.db = {("a", .owner)} ∧
    ¬ Tracks "c" (serve default {} registerBoth).state.db
      (((Op.deleteUser "b").code default).run (Call.exec default)
        (serve default {} registerBoth).state).2.db := by
  refine ⟨by decide, by decide, by decide, by decide, by decide⟩

end VoxServer.Membership
