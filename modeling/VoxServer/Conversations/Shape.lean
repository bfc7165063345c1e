import VoxServer.Conversations.Creation
import VoxServer.Conversations.Listing
import VoxServer.Conversations.MembershipVersion

/-! # The shape of direct conversations and channels

Operations refuse to add members to direct conversations and channels, and to remove
them. So their members are those that the creation gave them, without the users who were
deleted since. The creator stays: the reference from the conversation blocks the deletion.
-/

namespace VoxServer.Shape

open Interleaving Prog Table ConversationRepository
open Creation (Request)
open Channels (Orderly nobody service registerUser)
open VoxServer.Membership (activeMembers activeSubscribers mem_activeMembers mem_activeSubscribers)

/-- The conversation that an operation has created, and for which request. -/
def created? : Done Op Op.Res → Option (ConversationId × Request)
  | ⟨.createDm a b c _, res⟩ => res.toOption.map (·, .dm a b c)
  | ⟨.createGroup c ms _, res⟩ => res.toOption.map (·, .group c ms)
  | ⟨.createChannel c as ss _, res⟩ => res.toOption.map (·, .channel c as ss)
  | _ => none

def deleted? : Done Op Op.Res → Option UserId
  | ⟨.deleteUser u, .ok _⟩ => some u
  | _ => none

/-- What the conversation of a request looks like, when the users in the list have been deleted
since it was created. -/
def Shaped (conv : ConversationId) (gone : List UserId) (db : Database) : Request → Prop
  | .dm a b _ =>
    (activeMembers conv db).image Prod.fst ⊆ {a, b} ∧
      (a ∉ gone → b ∉ gone → (activeMembers conv db).image Prod.fst = {a, b})
  | .group .. => True
  | .channel c as _ =>
    (c, .owner) ∈ activeMembers conv db ∧ c ∈ activeSubscribers conv db ∧
      (∀ u role, (u, role) ∈ activeMembers conv db →
        (role = .owner ∨ role = .admin) ∧ u ∈ activeSubscribers conv db) ∧
      ∀ u, u ∈ (activeMembers conv db).image Prod.fst ↔ u ∈ as ∧ u ∉ gone

section Requests

def typeOf : Request → ConversationType
  | .dm .. => .dm
  | .group .. => .group
  | .channel .. => .channel

def Gives (u : UserId) (role : MemberRole) : Request → Prop
  | .dm a b c => (u = a ∨ u = b) ∧ role = if u = c then .owner else .member
  | .group c ms => u ∈ ms ∧ role = if u = c then .owner else .member
  | .channel c as _ => u ∈ as ∧ role = if u = c then .owner else .admin

/-- The conversation exists, with the type and the creator of the request. -/
def Entered (conv : ConversationId) (request : Request) (db : Database) : Prop :=
  ∃ r ∈ db.conversations, r.conversationId = conv ∧ r.type = typeOf request ∧
    r.createdBy = request.createdBy

/-- The members of the conversation are those that the request gave it, without the users in the
list, and its creator is not one of these. -/
structure Kept (conv : ConversationId) (request : Request) (gone : List UserId) (db : Database) :
    Prop where
  conversation : Entered conv request db
  members : ∀ u role, (u, role) ∈ activeMembers conv db ↔ Gives u role request ∧ u ∉ gone
  owner : Gives request.createdBy .owner request
  creator : request.createdBy ∉ gone

end Requests

section Spared

variable {conv : ConversationId} (cfg : ServerConfig) {s : Server}

/-- A call that does not add to the conversation, remove from it or delete users. -/
def spares (conv : ConversationId) : Call → Bool
  | .conversations (.addMember c ..) => c ≠ conv
  | .conversations (.removeMember c ..) => c ≠ conv
  | .admin _ => false
  | _ => true

theorem spares_of_tame {c : Call} (hc : c.tame) : spares conv c := by
  unfold spares
  split
  case h_4 => rfl
  all_goals cases hc

theorem spares_of_calm {c : Call} (hc : c.calm) : spares conv c :=
  spares_of_tame (Call.tame_of_calm hc)

theorem getMembers_exec {c : Call} (hc : spares conv c) :
    getMembers conv (c.exec cfg s).2.db = getMembers conv s.db := by
  by_cases hconv : ∃ a, c = .conversations a
  · obtain ⟨a, rfl⟩ := hconv
    change getMembers conv (a.exec s.db).2 = _
    cases a with
    | addMember c u role now =>
      have hne : c ≠ conv := of_decide_eq_true hc
      simp only [ConversationCall.exec, ConversationRepository.addMember]
      split
      · rename_i hup
        rcases upsertMember_ok hup with ⟨-, rfl⟩ | ⟨-, -, -, rfl⟩
        · exact Membership.getMembers_update (k := (c, u)) hne.symm
            (fun m hm => of_decide_eq_true hm) fun _ => rfl
        · simp [getMembers, bumpMembershipVersion, hne]
      · rfl
    | removeMember c u now =>
      have hne : c ≠ conv := of_decide_eq_true hc
      have hkeep : getMembers conv { s.db with
          conversationMembers := updateWhere _ _ s.db.conversationMembers } =
            getMembers conv s.db :=
        Membership.getMembers_update (k := (c, u)) hne.symm
          (p := fun m => decide (m.key = (c, u) ∧ m.removedAt = none))
          (f := fun m => { m with removedAt := some now })
          (fun m hm => (of_decide_eq_true hm).1) fun _ => rfl
      simp only [ConversationCall.exec, ConversationRepository.removeMember]
      split
      · exact hkeep
      · exact hkeep
    | _ =>
      rw [getMembers, ConversationCall.exec_members, getMembers]
      rfl
  · have ha : ¬ c.isAdmin := by
      intro ha
      cases c with
      | admin a => cases hc
      | _ => cases ha
    rw [getMembers, (Call.exec_memberships cfg (not_exists.mp hconv) ha).1, getMembers]

theorem activeMembers_congr {db db' : Database} (h : getMembers conv db' = getMembers conv db) :
    activeMembers conv db' = activeMembers conv db := by
  rw [activeMembers, h, activeMembers]

theorem ends_of_only {α : Type} {p : ServerProg α} (hp : p.Only (spares conv ·)) :
    p.Ends (Call.exec cfg) (fun _ s' => getMembers conv s'.db = getMembers conv s.db) s :=
  Only.ends (I := fun s' : Server => getMembers conv s'.db = getMembers conv s.db) hp
    (fun _ _ hc h => (getMembers_exec cfg hc).trans h) rfl

theorem ends_entered {α : Type} (p : ServerProg α) {request : Request}
    (h : Entered conv request s.db) :
    p.Ends (Call.exec cfg) (fun _ s' => Entered conv request s'.db) s := by
  refine p.only_true.ends ?_ h
  rintro c s - ⟨r, hr, hid, ht, hby⟩
  obtain ⟨r', hr', hid', ht', hby'⟩ := Call.exec_keeps_conversation cfg (c := c) hr
  exact ⟨r', hr', hid'.trans hid, ht'.trans ht, hby'.trans hby⟩

end Spared

section Creations

variable {conv : ConversationId} (cfg : ServerConfig) {s : Server}

theorem mem_activeMembers_addMember {u v : UserId} {role r : MemberRole} {now : Timestamp}
    {db : Database} (hok : (ConversationRepository.addMember conv u role now db).1 = .ok ()) :
    (v, r) ∈ activeMembers conv (ConversationRepository.addMember conv u role now db).2 ↔
      (v = u ∧ r = role) ∨ (v ≠ u ∧ (v, r) ∈ activeMembers conv db) := by
  unfold ConversationRepository.addMember at hok ⊢
  split at hok
  · rename_i db' hup
    have hrows := (upsertMember_ok hup).imp
      (And.imp_right (congrArg Database.conversationMembers))
      (And.imp_right fun h => congrArg Database.conversationMembers h.2.2)
    simp only [mem_activeMembers, bumpMembershipVersion]
    rw [exists_upsert_iff hrows (fun _ => rfl) rfl fun _ => Iff.rfl]
    by_cases hv : v = u
    · subst hv
      simp [eq_comm]
    · simp [hv]
  · cases hok

/-- The users of the list have become members in their roles, and others are what they were. -/
def Joins (conv : ConversationId) (role : UserId → MemberRole) (us : List UserId)
    (db db' : Database) : Prop :=
  ∀ v r, (v, r) ∈ activeMembers conv db' ↔
    (v ∈ us ∧ r = role v) ∨ (v ∉ us ∧ (v, r) ∈ activeMembers conv db)

theorem Joins.nil {role : UserId → MemberRole} {db : Database} : Joins conv role [] db db := by
  intro v r
  simp

theorem Joins.cons {role : UserId → MemberRole} {u : UserId} {us : List UserId} {now : Timestamp}
    {db db₁ db₂ : Database}
    (hok : (ConversationRepository.addMember conv u (role u) now db).1 = .ok ())
    (h₁ : activeMembers conv db₁ =
      activeMembers conv (ConversationRepository.addMember conv u (role u) now db).2)
    (h : Joins conv role us db₁ db₂) : Joins conv role (u :: us) db db₂ := by
  intro v r
  rw [h v r, h₁, mem_activeMembers_addMember hok, List.mem_cons]
  by_cases hv : v = u
  · subst hv
    by_cases hmem : v ∈ us <;> simp [hmem]
  · simp [hv]

theorem ends_addMembers {role : UserId → MemberRole} {now : Timestamp} {us : List UserId} :
    (ConversationService.addMembers conv role now us).Ends (Call.exec cfg)
      (fun res s' => res = .ok () → Joins conv role us s.db s'.db) s := by
  induction us generalizing s with
  | nil => exact fun _ => .nil
  | cons u us ih =>
    refine ends_perform_bind.mpr ?_
    split
    · exact fun he => by cases he
    · rename_i hok
      exact ih.mono fun res s' h hres => (h hres).cons hok rfl

theorem ends_addAdmins {createdBy : UserId} {now : Timestamp} {us : List UserId} :
    (ConversationService.addAdmins conv createdBy now us).Ends (Call.exec cfg)
      (fun res s' => res = .ok () →
        Joins conv (fun u => if u = createdBy then .owner else .admin) us s.db s'.db) s := by
  induction us generalizing s with
  | nil => exact fun _ => .nil
  | cons u us ih =>
    refine ends_perform_bind.mpr ?_
    split
    · exact fun he => by cases he
    · rename_i hok
      refine ends_perform_bind.mpr ?_
      split
      · exact fun he => by cases he
      · refine ih.mono fun res s' h hres => (h hres).cons hok ?_
        exact activeMembers_congr (getMembers_exec cfg rfl)

theorem not_mem_activeMembers (hv : s.db.Valid)
    (hnew : ∀ r ∈ s.db.conversations, r.conversationId ≠ conv) {u : UserId} {role : MemberRole} :
    (u, role) ∉ activeMembers conv s.db := by
  intro hu
  obtain ⟨m, hm, hk, -⟩ := mem_activeMembers.mp hu
  obtain ⟨r, hr, hid⟩ := hv.members_conversation m hm
  exact hnew r hr (hid.trans (congrArg Prod.fst hk))

theorem ends_insert {request : Request} {r : ConversationRecord}
    {f : VoidResult → ServerProg (Result ConversationId)} (hv : s.db.Valid)
    (ht : r.type = typeOf request) (hby : r.createdBy = request.createdBy)
    (howner : Gives request.createdBy .owner request)
    (herr : ∀ e, f (.error e) = .ret (.error e))
    (hok : ∀ s', (∀ u role, (u, role) ∉ activeMembers r.conversationId s'.db) →
      (f (.ok ())).Ends (Call.exec cfg) (fun res s' => ∀ conv, res = .ok conv →
        conv = r.conversationId ∧
          ∀ u role, (u, role) ∈ activeMembers conv s'.db ↔ Gives u role request) s') :
    (ask (.conversations (.createConversation r)) >>= f).Ends (Call.exec cfg)
      (fun res s' => ∀ conv, res = .ok conv → Kept conv request [] s'.db) s := by
  refine ends_perform_bind.mpr ?_
  rcases createConversation_cases r s.db with ⟨-, e, he⟩ | ⟨hnew, -, he⟩
  · simp only [Call.exec, ConversationCall.exec, he, Call.onDb, herr]
    exact fun conv hc => by cases hc
  · simp only [Call.exec, ConversationCall.exec, he, Call.onDb]
    have hempty := hok { s with db := { s.db with conversations := s.db.conversations ++ [r] } }
      fun u role => not_mem_activeMembers (s := s) hv hnew
    have hent : Entered r.conversationId request
        { s.db with conversations := s.db.conversations ++ [r] } :=
      ⟨r, List.mem_append_right _ List.mem_cons_self, rfl, ht, hby⟩
    intro conv hc
    obtain ⟨rfl, hmem⟩ := hempty conv hc
    exact ⟨ends_entered cfg (f (.ok ()))
        (s := { s with db := { s.db with conversations := s.db.conversations ++ [r] } }) hent,
      fun u role => by simp [hmem u role], howner, by simp⟩

theorem Joins.gives {role : UserId → MemberRole} {us : List UserId} {db db' : Database}
    (h : Joins conv role us db db') (hempty : ∀ u r, (u, r) ∉ activeMembers conv db) (u : UserId)
    (r : MemberRole) : (u, r) ∈ activeMembers conv db' ↔ u ∈ us ∧ r = role u := by
  simp [h u r, hempty]

theorem ends_createDm (hv : s.db.Valid) (a b c : UserId) :
    (ConversationService.createDm a b c conv).Ends (Call.exec cfg)
      (fun res s' => ∀ id, res = .ok id → Kept id (.dm a b c) [] s'.db) s := by
  unfold ConversationService.createDm
  split
  · exact fun _ he => by cases he
  rename_i hcheck
  have howner : Gives c .owner (.dm a b c) := ⟨by tauto, (if_pos rfl).symm⟩
  refine ends_perform_bind.mpr (ends_insert cfg hv rfl rfl howner (fun _ => rfl) ?_)
  intro s' hempty
  refine Ends.bind ((ends_addMembers cfg).mono fun res s'' h => ?_)
  split
  · exact fun _ he => by cases he
  · rintro _ ⟨⟩
    refine ⟨rfl, fun u role => ((h rfl).gives hempty u role).trans ?_⟩
    simp only [Gives]
    grind

theorem ends_createGroup (hv : s.db.Valid) (c : UserId) (ms : List UserId) :
    (ConversationService.createGroup cfg c ms conv).Ends (Call.exec cfg)
      (fun res s' => ∀ id, res = .ok id → Kept id (.group c ms) [] s'.db) s := by
  unfold ConversationService.createGroup
  dsimp only
  split
  · exact fun _ he => by cases he
  split
  · exact fun _ he => by cases he
  rename_i hc
  split
  · exact fun _ he => by cases he
  have howner : Gives c .owner (.group c ms) :=
    ⟨ConversationService.mem_sortUnique.mp (not_not.mp hc), (if_pos rfl).symm⟩
  refine ends_perform_bind.mpr (ends_insert cfg hv rfl rfl howner (fun _ => rfl) ?_)
  intro s' hempty
  refine Ends.bind ((ends_addMembers cfg).mono fun res s'' h => ?_)
  split
  · exact fun _ he => by cases he
  · rintro _ ⟨⟩
    refine ⟨rfl, fun u role => ((h rfl).gives hempty u role).trans ?_⟩
    rw [ConversationService.mem_sortUnique]
    exact Iff.rfl

theorem ends_createChannel (hv : s.db.Valid) (c : UserId) (as ss : List UserId) :
    (ConversationService.createChannel cfg c as ss conv).Ends (Call.exec cfg)
      (fun res s' => ∀ id, res = .ok id → Kept id (.channel c as ss) [] s'.db) s := by
  unfold ConversationService.createChannel
  split
  · exact fun _ he => by cases he
  split
  · exact fun _ he => by cases he
  rename_i hc
  split
  · exact fun _ he => by cases he
  split
  · exact fun _ he => by cases he
  have howner : Gives c .owner (.channel c as ss) := ⟨not_not.mp hc, (if_pos rfl).symm⟩
  refine ends_perform_bind.mpr (ends_insert cfg hv rfl rfl howner (fun _ => rfl) ?_)
  intro s' hempty
  refine Ends.bind ((ends_addAdmins cfg).mono fun res s'' h => ?_)
  split
  · exact fun _ he => by cases he
  · -- subscribing makes nobody a member
    have hsubs : (ConversationService.addSubscribers conv s.clock (ss.filter (· ∉ as))).Only
        (spares conv ·) := Op.only_addSubscribers (fun _ _ _ => spares_of_tame rfl) _
    refine Ends.bind ((ends_of_only cfg hsubs).mono fun res' s₃ hsame => ?_)
    split
    · exact fun _ he => by cases he
    · rintro _ ⟨⟩
      refine ⟨rfl, fun u role => ?_⟩
      change (u, role) ∈ activeMembers conv s₃.db ↔ _
      rw [activeMembers_congr hsame]
      exact (h rfl).gives hempty u role

theorem ok_of_created {res : Result ConversationId} {request request' : Request}
    (h : res.toOption.map (·, request') = some (conv, request)) :
    request = request' ∧ res = .ok conv := by
  cases res with
  | error e => cases h
  | ok id =>
    cases h
    exact ⟨rfl, rfl⟩

theorem kept_of_created {o : Op} {request : Request} (hv : s.db.Valid)
    (h : created? ⟨o, ((o.code cfg).run (Call.exec cfg) s).1⟩ = some (conv, request)) :
    Kept conv request [] ((o.code cfg).run (Call.exec cfg) s).2.db := by
  cases o with
  | createDm a b c i =>
    obtain ⟨rfl, hres⟩ := ok_of_created h
    exact ends_createDm cfg hv a b c conv hres
  | createGroup c ms i =>
    obtain ⟨rfl, hres⟩ := ok_of_created h
    exact ends_createGroup cfg hv c ms conv hres
  | createChannel c as ss i =>
    obtain ⟨rfl, hres⟩ := ok_of_created h
    exact ends_createChannel cfg hv c as ss conv hres
  | _ => cases h

end Creations

section Operations

variable {conv : ConversationId} (cfg : ServerConfig) {s : Server}

/-- The conversation exists and is a direct conversation or a channel. -/
def Fixed (conv : ConversationId) (db : Database) : Prop :=
  ∃ r ∈ db.conversations, r.conversationId = conv ∧ r.type ≠ .group

theorem ends_in_use (h : Fixed conv s.db) {r : ConversationRecord}
    (hid : r.conversationId = conv) {f : VoidResult → ServerProg (Result ConversationId)}
    (herr : ∀ e, f (.error e) = .ret (.error e)) :
    (ask (.conversations (.createConversation r)) >>= f).Ends (Call.exec cfg)
      (fun _ s' => getMembers conv s'.db = getMembers conv s.db) s := by
  refine ends_perform_bind.mpr ?_
  rcases createConversation_cases r s.db with ⟨-, e, he⟩ | ⟨hnew, -, -⟩
  · simp only [Call.exec, ConversationCall.exec, he, Call.onDb, herr]
    rfl
  · obtain ⟨c, hc, hid', -⟩ := h
    exact absurd (hid'.trans hid.symm) (hnew c hc)

theorem getMembers_createDm (h : Fixed conv s.db) (a b c : UserId) (uuid : String) :
    (ConversationService.createDm a b c uuid).Ends (Call.exec cfg)
      (fun _ s' => getMembers conv s'.db = getMembers conv s.db) s := by
  by_cases hid : uuid = conv
  · unfold ConversationService.createDm
    split
    · rfl
    · exact ends_perform_bind.mpr (ends_in_use cfg h hid fun _ => rfl)
  · exact ends_of_only cfg (Op.only_createDm (fun _ => spares_of_calm)
      (fun _ _ _ => decide_eq_true hid) a b c)

theorem getMembers_createGroup (h : Fixed conv s.db) (c : UserId) (ms : List UserId)
    (uuid : String) : (ConversationService.createGroup cfg c ms uuid).Ends (Call.exec cfg)
      (fun _ s' => getMembers conv s'.db = getMembers conv s.db) s := by
  by_cases hid : uuid = conv
  · unfold ConversationService.createGroup
    dsimp only
    repeat' split
    case isFalse.isFalse.isFalse => exact ends_perform_bind.mpr (ends_in_use cfg h hid fun _ => rfl)
    all_goals rfl
  · exact ends_of_only cfg (Op.only_createGroup cfg (fun _ => spares_of_calm)
      (fun _ _ _ => decide_eq_true hid) c ms)

theorem getMembers_createChannel (h : Fixed conv s.db) (c : UserId) (as ss : List UserId)
    (uuid : String) : (ConversationService.createChannel cfg c as ss uuid).Ends (Call.exec cfg)
      (fun _ s' => getMembers conv s'.db = getMembers conv s.db) s := by
  by_cases hid : uuid = conv
  · unfold ConversationService.createChannel
    repeat' split
    case h_2.isFalse =>
      exact ends_perform_bind.mpr (ends_in_use cfg h hid fun _ => rfl)
    all_goals rfl
  · exact ends_of_only cfg (Op.only_createChannel cfg (fun _ => spares_of_calm)
      (fun _ _ _ => decide_eq_true hid) (fun _ _ => spares_of_tame rfl) c as ss)

theorem find_fixed (hv : s.db.Valid) (h : Fixed conv s.db) :
    ∃ r, findById conv s.db = some r ∧ r.type ≠ .group := by
  obtain ⟨r, hr, hid, ht⟩ := h
  refine ⟨r, hv.conversations_pk.find?_eq_some hr (decide_eq_true hid) fun r' _ h => ?_, ht⟩
  exact (of_decide_eq_true h).trans hid.symm

theorem getMembers_addMember (hv : s.db.Valid) (h : Fixed conv s.db) (c : ConversationId)
    (a u : UserId) (role : MemberRole) :
    (ConversationService.addMember cfg c a u role).Ends (Call.exec cfg)
      (fun _ s' => getMembers conv s'.db = getMembers conv s.db) s := by
  by_cases hid : c = conv
  · obtain ⟨r, hr, ht⟩ := find_fixed hv h
    subst hid
    refine ends_perform_bind.mpr ?_
    simp only [Call.exec, ConversationCall.exec, Call.onDb, hr]
    cases htype : r.type with
    | group => exact absurd htype ht
    | dm => rfl
    | channel => rfl
  · exact ends_of_only cfg (Op.only_addMember cfg (fun _ => spares_of_calm)
      (fun _ => decide_eq_true hid) a)

theorem getMembers_removeMember (hv : s.db.Valid) (h : Fixed conv s.db) (c : ConversationId)
    (a u : UserId) : (ConversationService.removeMember c a u).Ends (Call.exec cfg)
      (fun _ s' => getMembers conv s'.db = getMembers conv s.db) s := by
  by_cases hid : c = conv
  · obtain ⟨r, hr, ht⟩ := find_fixed hv h
    subst hid
    refine ends_perform_bind.mpr ?_
    simp only [Call.exec, ConversationCall.exec, Call.onDb, hr]
    cases htype : r.type with
    | group => exact absurd htype ht
    | dm => rfl
    | channel => rfl
  · exact ends_of_only cfg (Op.only_removeMember (fun _ => spares_of_calm)
      (fun _ => decide_eq_true hid) (fun _ _ _ => rfl) (fun _ _ => rfl) a)

theorem getMembers_perform {o : Op} (ho : service o) (hd : ∀ u, o ≠ .deleteUser u)
    (hv : s.db.Valid) (h : Fixed conv s.db) : (o.code cfg).Ends (Call.exec cfg)
      (fun _ s' => getMembers conv s'.db = getMembers conv s.db) s := by
  cases o with
  | createDm a b c i => exact getMembers_createDm cfg h a b c i
  | createGroup c ms i => exact getMembers_createGroup cfg h c ms i
  | createChannel c as ss i => exact getMembers_createChannel cfg h c as ss i
  | addMember c a u r => exact getMembers_addMember cfg hv h c a u r
  | removeMember c a u => exact getMembers_removeMember cfg hv h c a u
  | deleteUser u => exact absurd rfl (hd u)
  | single c => exact getMembers_exec cfg (spares_of_tame ho)
  | _ =>
    refine ends_of_only cfg ((Op.code_only cfg _).mono fun c hc => ?_)
    unfold spares
    split
    case h_4 => rfl
    all_goals cases hc

theorem mem_activeMembers_withoutUser {u v : UserId} {role : MemberRole} {db : Database} :
    (v, role) ∈ activeMembers conv (AdminService.withoutUser u db) ↔
      (v, role) ∈ activeMembers conv db ∧ v ≠ u := by
  simp only [mem_activeMembers, AdminService.withoutUser, mem_deleteWhere, decide_eq_true_eq]
  constructor
  · rintro ⟨m, ⟨hm, hne⟩, hk, hr, ho⟩
    exact ⟨⟨m, hm, hk, hr, ho⟩, fun hv => hne ((congrArg Prod.snd hk).trans hv)⟩
  · rintro ⟨⟨m, hm, hk, hr, ho⟩, hne⟩
    exact ⟨m, ⟨hm, fun hu => hne ((congrArg Prod.snd hk).symm.trans hu)⟩, hk, hr, ho⟩

/-- Every operation keeps the members of a direct conversation or a channel, up to the user whom it
deletes. -/
theorem Kept.perform {request : Request} {gone : List UserId} {o : Op} (ho : service o)
    (hv : s.db.Valid) (ht : typeOf request ≠ .group) (h : Kept conv request gone s.db) :
    (o.code cfg).Ends (Call.exec cfg)
      (fun res s' => Kept conv request (gone ++ (deleted? ⟨o, res⟩).toList) s'.db) s := by
  by_cases hd : ∃ u, o = .deleteUser u
  · obtain ⟨u, rfl⟩ := hd
    unfold Ends Op.code
    rcases Accounts.deleteUser_cases cfg u hv with ⟨-, hdet, he⟩ | ⟨-, e, he⟩
    · rw [he]
      obtain ⟨r, hr, hid, htype, hby⟩ := h.conversation
      refine ⟨⟨r, hr, hid, htype, hby⟩, fun v role => ?_, h.owner, ?_⟩
      · rw [mem_activeMembers_withoutUser, h.members v role]
        simp [deleted?, and_assoc]
      · have hne : request.createdBy ≠ u := hby ▸ hdet.1 r hr
        simp [deleted?, h.creator, hne]
    · rw [he]
      simpa [deleted?] using h
  · have hfixed : Fixed conv s.db := by
      obtain ⟨r, hr, hid, htype, -⟩ := h.conversation
      exact ⟨r, hr, hid, htype ▸ ht⟩
    have hsame := getMembers_perform cfg ho (not_exists.mp hd) hv hfixed
    have hgone : ∀ res, deleted? ⟨o, res⟩ = none := by
      intro res
      cases o with
      | deleteUser u => exact absurd ⟨u, rfl⟩ hd
      | _ => rfl
    refine ⟨ends_entered cfg _ h.conversation, fun u role => ?_, h.owner, ?_⟩
    · rw [activeMembers_congr hsame, hgone]
      simpa using h.members u role
    · simpa [hgone] using h.creator

end Operations

section Shapes

variable {conv : ConversationId} {gone : List UserId} {s : Server}

theorem Kept.mem_image {request : Request} (h : Kept conv request gone s.db) {u : UserId} :
    u ∈ (activeMembers conv s.db).image Prod.fst ↔ (∃ role, Gives u role request) ∧ u ∉ gone := by
  simp only [Finset.mem_image, Prod.exists, exists_and_right, exists_eq_right, h.members]

theorem Kept.shaped_dm {a b c : UserId} (h : Kept conv (.dm a b c) gone s.db) :
    Shaped conv gone s.db (.dm a b c) := by
  have hmem : ∀ u, u ∈ (activeMembers conv s.db).image Prod.fst ↔ (u = a ∨ u = b) ∧ u ∉ gone := by
    intro u
    simp only [h.mem_image, Gives, exists_and_left, exists_eq, and_true]
  refine ⟨fun u hu => ?_, fun ha hb => ?_⟩
  · simpa using ((hmem u).mp hu).1
  · ext u
    rw [hmem u, Finset.mem_insert, Finset.mem_singleton]
    constructor
    · exact And.left
    · rintro (rfl | rfl)
      · exact ⟨.inl rfl, ha⟩
      · exact ⟨.inr rfl, hb⟩

/-- The members of a channel are staff, and staff are subscribers. -/
theorem Kept.shaped_channel {c : UserId} {as ss : List UserId} (ho : Orderly nobody s)
    (h : Kept conv (.channel c as ss) gone s.db) :
    Shaped conv gone s.db (.channel c as ss) := by
  have hstaff : ∀ u role, (u, role) ∈ activeMembers conv s.db →
      (role = .owner ∨ role = .admin) ∧ u ∈ activeSubscribers conv s.db := by
    intro u role hu
    obtain ⟨m, hm, hk, rfl, hopen⟩ := mem_activeMembers.mp hu
    obtain ⟨r, hr, hid, ht, -⟩ := h.conversation
    obtain ⟨hrole, hjoined⟩ :=
      ho.staffed m hm hopen r hr (hid.trans (congrArg Prod.fst hk).symm) ht
    refine ⟨hrole, mem_activeSubscribers.mpr ?_⟩
    exact hk ▸ hjoined.resolve_right id
  have howner : (c, .owner) ∈ activeMembers conv s.db :=
    (h.members c .owner).mpr ⟨h.owner, h.creator⟩
  refine ⟨howner, (hstaff c .owner howner).2, hstaff, fun u => ?_⟩
  simp only [h.mem_image, Gives, exists_and_left, exists_eq, and_true]

end Shapes

/-- Whatever complete operations follow its creation, a direct conversation has the two participants
that are not deleted, and a channel has the admins that are not deleted, its creator among them, who
all subscribe to it. -/
theorem shape_preserved (cfg : ServerConfig) {init : Server} (h : Orderly nobody init)
    (acts : List (Op ⊕ Timestamp)) (hops : ∀ o, .inl o ∈ acts → service o)
    {h₁ h₂ : List (Done Op Op.Res)} {x : Done Op Op.Res} {conv : ConversationId}
    {request : Request} (hx : ((voxServer cfg).recordAll init acts).1 = h₁ ++ x :: h₂)
    (hcreated : created? x = some (conv, request)) :
    Shaped conv (h₂.filterMap deleted?) ((voxServer cfg).recordAll init acts).2.db request := by
  -- the members of each conversation that has been created, after each operation
  have hinv : Orderly nobody ((voxServer cfg).recordAll init acts).2 ∧ _ :=
    (voxServer cfg).record_invariant (P := (service ·))
    (I := fun hist s => Orderly nobody s ∧ ∀ h₁ x h₂ conv request, hist = h₁ ++ x :: h₂ →
      created? x = some (conv, request) → typeOf request ≠ .group →
        Kept conv request (h₂.filterMap deleted?) s.db)
    ⟨h, by simp⟩ ?_ ?_ acts hops
  · obtain ⟨ho, hkept⟩ := hinv
    cases request with
    | dm a b c => exact (hkept _ _ _ _ _ hx hcreated (by simp [typeOf])).shaped_dm
    | group c ms => trivial
    | channel c as ss => exact (hkept _ _ _ _ _ hx hcreated (by simp [typeOf])).shaped_channel ho
  · rintro hist s o ho ⟨hs, hkept⟩
    refine ⟨hs.perform ?_, ?_⟩
    · rintro c rfl
      exact .inl ho
    · intro h₁ x h₂ conv request he hc ht
      rcases snoc_eq_append_cons he with ⟨-, rfl, rfl⟩ | ⟨m, rfl, rfl⟩
      · exact kept_of_created cfg hs.valid hc
      · have hk := (hkept h₁ x m conv request rfl hc ht).perform cfg ho hs.valid ht
        rw [List.filterMap_append]
        exact hk
  · rintro hist s t ⟨hs, hkept⟩
    exact ⟨⟨hs.valid, hs.staffed⟩, hkept⟩

/-- One user creates a direct conversation and a channel with another one, who is then deleted. -/
def deleteBob : List (Op ⊕ Timestamp) :=
  [.inl (registerUser "alice" "a"), .inl (registerUser "bob" "b"),
    .inl (.createDm "a" "b" "a" "c"), .inl (.createChannel "a" ["a", "b"] [] "d"),
    .inl (.deleteUser "b")]

theorem deleteBob_shaped :
    Shaped "d" ["b"] ((voxServer default).recordAll {} deleteBob).2.db
      (.channel "a" ["a", "b"] []) ∧
    activeMembers "d" ((voxServer default).recordAll {} deleteBob).2.db = {("a", .owner)} := by
  have h0 : Orderly nobody {} := ⟨by decide, by simp [Channels.Staffed]⟩
  have hops : ∀ o, .inl o ∈ deleteBob → service o := by
    simp [deleteBob, registerUser, service]
  refine ⟨?_, by decide⟩
  have hx : ((voxServer default).recordAll {} deleteBob).1 =
      ((voxServer default).recordAll {} (deleteBob.take 3)).1 ++
        ⟨.createChannel "a" ["a", "b"] [] "d", .ok "d"⟩ :: [⟨.deleteUser "b", .ok ()⟩] := rfl
  exact shape_preserved default h0 deleteBob hops hx rfl

end VoxServer.Shape
