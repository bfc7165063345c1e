import VoxServer.Conversations.Shape

/-! # What a creation builds

The checks of a creation count distinct ids by sorting, or with a set of the ids seen, and
the rows are inserted one by one with an update for those that are there. Where all users
exist, a creation succeeds exactly if its checks on the distinct ids hold, and then the
members and the subscribers are those of the request, each one once.
-/

namespace VoxServer.Requested

open Interleaving Prog Table ConversationRepository
open Creation (Exists Open Added)
open VoxServer.Membership (activeMembers activeSubscribers mem_activeSubscribers)

def roles (conv : ConversationId) (db : Database) : List (UserId × MemberRole) :=
  (getMembers conv db).map fun m => (m.userId, m.role)

section Lists

variable {conv : ConversationId} {db : Database}

theorem roles_perm (hv : db.Valid) {ids : List UserId} {role : UserId → MemberRole}
    (h : ∀ u r, (u, r) ∈ activeMembers conv db ↔ u ∈ ids ∧ r = role u) :
    (roles conv db).Perm (ids.dedup.map fun u => (u, role u)) := by
  have hnodup : (roles conv db).Nodup := by
    apply List.Nodup.of_map Prod.fst
    rw [roles, List.map_map]
    exact nodup_getMembers hv conv
  have hids : (ids.dedup.map fun u => (u, role u)).Nodup :=
    (List.nodup_dedup ids).map fun _ _ he => congrArg Prod.fst he
  rw [List.perm_ext_iff_of_nodup hnodup hids]
  rintro ⟨u, r⟩
  have hmem : (u, r) ∈ roles conv db ↔ (u, r) ∈ activeMembers conv db := List.mem_toFinset.symm
  rw [hmem, h, List.mem_map]
  constructor
  · rintro ⟨hu, rfl⟩
    exact ⟨u, List.mem_dedup.mpr hu, rfl⟩
  · rintro ⟨v, hv, he⟩
    cases he
    exact ⟨List.mem_dedup.mp hv, rfl⟩

theorem getSubscribers_perm (hv : db.Valid) {ids : List UserId}
    (h : ∀ u, u ∈ activeSubscribers conv db ↔ u ∈ ids) :
    (getSubscribers conv db).Perm ids.dedup := by
  rw [List.perm_ext_iff_of_nodup (nodup_getSubscribers hv conv) (List.nodup_dedup ids)]
  intro u
  rw [List.mem_dedup, ← h]
  exact List.mem_toFinset.symm

end Lists

section Subscriptions

variable {conv : ConversationId} {u v : UserId} {now : Timestamp} {db : Database}

theorem mem_activeSubscribers_subscribe (hok : (subscribe conv u now db).1 = .ok ()) :
    v ∈ activeSubscribers conv (subscribe conv u now db).2 ↔
      v = u ∨ v ∈ activeSubscribers conv db := by
  unfold subscribe at hok ⊢
  split at hok
  · rename_i db' hup
    have hrows := (upsertSubscription_ok hup).imp
      (And.imp_right (congrArg Database.channelSubscriptions))
      (And.imp_right fun h => congrArg Database.channelSubscriptions h.2.2)
    simp only [mem_activeSubscribers, bumpMembershipVersion]
    rw [exists_upsert_iff hrows (fun _ => rfl) rfl fun _ => Iff.rfl]
    by_cases hv : v = u
    · subst hv
      simp
    · simp [hv]
  · cases hok

/-- The users of the list have become subscribers, and nobody else. -/
def Subscribes (conv : ConversationId) (us : List UserId) (db db' : Database) : Prop :=
  ∀ v, v ∈ activeSubscribers conv db' ↔ v ∈ us ∨ v ∈ activeSubscribers conv db

theorem Subscribes.nil : Subscribes conv [] db db := by
  intro v
  simp

theorem Subscribes.cons {us : List UserId} {db' : Database}
    (hok : (subscribe conv u now db).1 = .ok ())
    (h : Subscribes conv us (subscribe conv u now db).2 db') :
    Subscribes conv (u :: us) db db' := by
  intro v
  rw [h v, mem_activeSubscribers_subscribe hok, List.mem_cons]
  tauto

theorem Subscribes.append {us us' : List UserId} {db₁ db₂ : Database}
    (h : Subscribes conv us db db₁) (h' : Subscribes conv us' db₁ db₂) :
    Subscribes conv (us ++ us') db db₂ := by
  intro v
  rw [h' v, h v, List.mem_append]
  tauto

end Subscriptions

section Loops

variable {conv : ConversationId} (cfg : ServerConfig) {s : Server}

theorem ends_addSubscribers {now : Timestamp} {us : List UserId} :
    (ConversationService.addSubscribers conv now us).Ends (Call.exec cfg)
      (fun res s' => res = .ok () → Subscribes conv us s.db s'.db) s := by
  induction us generalizing s with
  | nil => exact fun _ => .nil
  | cons u us ih =>
    refine ends_perform_bind.mpr ?_
    split
    · exact fun he => by cases he
    · rename_i hok
      exact ih.mono fun res s' h hres => (h hres).cons hok

theorem activeSubscribers_addMember {u : UserId} {role : MemberRole} {now : Timestamp} :
    activeSubscribers conv
      (Call.exec cfg (.conversations (.addMember conv u role now)) s).2.db =
        activeSubscribers conv s.db := by
  have hrows : (ConversationCall.exec (.addMember conv u role now) s.db).2.channelSubscriptions =
      s.db.channelSubscriptions := ConversationCall.exec_subscriptions rfl
  ext v
  rw [mem_activeSubscribers, mem_activeSubscribers, ← hrows]
  exact Iff.rfl

theorem ends_addAdmins {createdBy : UserId} {now : Timestamp} {us : List UserId} :
    (ConversationService.addAdmins conv createdBy now us).Ends (Call.exec cfg)
      (fun res s' => res = .ok () → Subscribes conv us s.db s'.db) s := by
  induction us generalizing s with
  | nil => exact fun _ => .nil
  | cons u us ih =>
    unfold ConversationService.addAdmins
    generalize (if u = createdBy then MemberRole.owner else .admin) = role
    refine ends_perform_bind.mpr ?_
    split
    · exact fun he => by cases he
    · refine ends_perform_bind.mpr ?_
      split
      · exact fun he => by cases he
      · rename_i hok
        refine ih.mono fun res s' h hres v => ?_
        rw [(h hres).cons hok v, activeSubscribers_addMember]

end Loops

section Creations

variable (cfg : ServerConfig) {s : Server} {uuid : String}

theorem ends_open (hv : s.db.Valid) (hnew : ∀ r ∈ s.db.conversations, r.conversationId ≠ uuid)
    {r : ConversationRecord} (hid : r.conversationId = uuid) (hby : Exists r.createdBy s.db)
    {f : VoidResult → ServerProg (Result ConversationId)}
    {Q : Result ConversationId → Server → Prop}
    (hok : ∀ s', Open uuid s.db s'.db → (∀ u, u ∉ activeSubscribers uuid s'.db) →
      (f (.ok ())).Ends (Call.exec cfg) Q s') :
    (ask (.conversations (.createConversation r)) >>= f).Ends (Call.exec cfg) Q s := by
  refine ends_perform_bind.mpr ?_
  rcases createConversation_cases r s.db with ⟨hwhy, -⟩ | ⟨-, -, he⟩
  · rcases hwhy with ⟨r', hr', hid'⟩ | hnone
    · exact absurd (hid'.trans hid) (hnew r' hr')
    · exact absurd hby hnone
  · obtain ⟨hr, hopen⟩ := Creation.open_createConversation cfg hv he
    rw [hr]
    rw [hid] at hopen
    refine hok _ hopen fun u hu => ?_
    simp only [Call.exec, ConversationCall.exec, he, Call.onDb] at hu
    obtain ⟨x, hx, hk, -⟩ := mem_activeSubscribers.mp hu
    obtain ⟨r', hr', hid'⟩ := hv.subscriptions_conversation x hx
    exact hnew r' hr' (hid'.trans (congrArg Prod.fst hk))

theorem ends_createGroup (hv : s.db.Valid)
    (hnew : ∀ r ∈ s.db.conversations, r.conversationId ≠ uuid) {c : UserId} {ms : List UserId}
    (hall : ∀ u ∈ ms, Exists u s.db) :
    (ConversationService.createGroup cfg c ms uuid).Ends (Call.exec cfg) (fun res s' =>
      ((∃ id, res = .ok id) ↔
        c ∈ ms ∧ 2 ≤ ms.toFinset.card ∧ ms.toFinset.card ≤ cfg.maxGroupSize) ∧
      (∀ id, res = .ok id → id = uuid) ∧ s'.db.users = s.db.users) s := by
  unfold ConversationService.createGroup
  simp only [ConversationService.length_sortUnique, ConversationService.mem_sortUnique]
  split
  · rename_i h
    exact ⟨iff_of_false (by simp) fun hchecks => by omega, nofun, rfl⟩
  split
  · rename_i h
    exact ⟨iff_of_false (by simp) fun hchecks => h hchecks.1, nofun, rfl⟩
  split
  · rename_i h
    exact ⟨iff_of_false (by simp) fun hchecks => by omega, nofun, rfl⟩
  rename_i h₁ h₂ h₃
  have hc : c ∈ ms := not_not.mp h₂
  refine ends_perform_bind.mpr (ends_open cfg hv hnew rfl (hall c hc) fun s' hopen _ => ?_)
  refine Ends.bind ((Creation.ends_addMembers cfg _ _ _ hopen).mono fun res s'' h => ?_)
  obtain rfl : res = .ok () := by
    apply h.2.mpr
    intro u hu
    exact hall u (ConversationService.mem_sortUnique.mp hu)
  refine ⟨iff_of_true ⟨uuid, rfl⟩ ⟨hc, not_lt.mp h₁, not_lt.mp h₃⟩, ?_, h.1.users⟩
  rintro _ ⟨⟩
  rfl

theorem ends_createChannel (hv : s.db.Valid)
    (hnew : ∀ r ∈ s.db.conversations, r.conversationId ≠ uuid) {c : UserId} {as ss : List UserId}
    (hall : ∀ u ∈ as ++ ss, Exists u s.db) :
    (ConversationService.createChannel cfg c as ss uuid).Ends (Call.exec cfg) (fun res s' =>
      ((∃ id, res = .ok id) ↔ as ≠ [] ∧ as.Nodup ∧ c ∈ as ∧
        (as ++ ss).toFinset.card ≤ cfg.maxChannelSize) ∧
      ∀ id, res = .ok id → id = uuid ∧
        ∀ u, u ∈ activeSubscribers id s'.db ↔ u ∈ as ++ ss) s := by
  have hadmins : ∀ u ∈ as, Exists u s.db := fun u hu => hall u (List.mem_append_left _ hu)
  unfold ConversationService.createChannel
  split
  · rename_i h
    exact ⟨iff_of_false (by simp) fun hchecks => hchecks.1 h, nofun⟩
  split
  · rename_i h
    exact ⟨iff_of_false (by simp) fun hchecks => h hchecks.2.2.1, nofun⟩
  split
  · rename_i h
    have hdup := ConversationService.countAdmins_eq_none_iff.mp h
    exact ⟨iff_of_false (by simp) fun hchecks => hdup hchecks.2.1, nofun⟩
  rename_i h₁ h₂ _ seen n h₃
  obtain ⟨hnodup, hcount⟩ := ConversationService.countSubscribers_of_countAdmins h₃ ss
  rw [hcount]
  split
  · rename_i h
    exact ⟨iff_of_false (by simp) fun hchecks => by omega, nofun⟩
  rename_i h₄
  have hc : c ∈ as := not_not.mp h₂
  refine ends_perform_bind.mpr (ends_open cfg hv hnew rfl (hadmins c hc) fun s' hopen hempty => ?_)
  refine Ends.bind (((Creation.ends_addAdmins cfg c _ as hopen).and
    (ends_addAdmins cfg)).mono fun res s₁ h => ?_)
  obtain ⟨⟨hopen₁, hok⟩, hsubs⟩ := h
  obtain rfl : res = .ok () := hok.mpr hadmins
  refine Ends.bind (((Creation.ends_addSubscribers cfg _ _ hopen₁).and
    (ends_addSubscribers cfg)).mono fun res s₂ h => ?_)
  obtain ⟨⟨-, hok₂⟩, hsubs₂⟩ := h
  obtain rfl : res = .ok () := by
    apply hok₂.mpr
    intro u hu
    exact hall u (List.mem_append_right _ (List.mem_filter.mp hu).1)
  constructor
  · exact iff_of_true ⟨uuid, rfl⟩ ⟨h₁, hnodup, hc, not_lt.mp h₄⟩
  · rintro _ ⟨⟩
    refine ⟨rfl, fun u => ?_⟩
    have hadded := (hsubs rfl).append (hsubs₂ rfl) u
    change u ∈ activeSubscribers uuid s₂.db ↔ _
    rw [hadded]
    simp only [List.mem_append, List.mem_filter, decide_eq_true_eq, hempty u]
    tauto

end Creations

/-- With all users in place and a new id, a group is created exactly if its distinct members
include the creator and are at least two and no more than the limit. Then they are its members,
the creator as the owner. A channel is created exactly if its admins are not empty, without
duplicates and include the creator, and the distinct ids are no more than the limit. Then the
admins are its members, the creator as the owner, and all ids are its subscribers. -/
theorem builds_what_is_requested (cfg : ServerConfig) {s : Server} (hv : s.db.Valid)
    (uuid : String) (hnew : ∀ r ∈ s.db.conversations, r.conversationId ≠ uuid) :
    (∀ (c : UserId) (ms : List UserId), (∀ u ∈ ms, Exists u s.db) →
      (ConversationService.createGroup cfg c ms uuid).Ends (Call.exec cfg) (fun res s' =>
        ((∃ id, res = .ok id) ↔
          c ∈ ms ∧ 2 ≤ ms.toFinset.card ∧ ms.toFinset.card ≤ cfg.maxGroupSize) ∧
        ∀ id, res = .ok id → id = uuid ∧ (roles id s'.db).Perm
          (ms.dedup.map fun u => (u, if u = c then .owner else .member))) s) ∧
    ∀ (c : UserId) (as ss : List UserId), (∀ u ∈ as ++ ss, Exists u s.db) →
      (ConversationService.createChannel cfg c as ss uuid).Ends (Call.exec cfg) (fun res s' =>
        ((∃ id, res = .ok id) ↔ as ≠ [] ∧ as.Nodup ∧ c ∈ as ∧
          (as ++ ss).toFinset.card ≤ cfg.maxChannelSize) ∧
        ∀ id, res = .ok id → id = uuid ∧
          (roles id s'.db).Perm (as.map fun u => (u, if u = c then .owner else .admin)) ∧
          (getSubscribers id s'.db).Perm (as ++ ss).dedup) s := by
  constructor
  · intro c ms hall
    have hvalid := (Op.createGroup c ms uuid).code_valid cfg hv
    refine ((ends_createGroup cfg hv hnew hall).and
      (hvalid.and (Shape.ends_createGroup cfg hv c ms))).mono ?_
    rintro res s' ⟨⟨hiff, hid, -⟩, hv', hmembers⟩
    refine ⟨hiff, fun id hres => ⟨hid id hres, roles_perm hv' fun u r => ?_⟩⟩
    simpa [Shape.Gives] using (hmembers id hres).members u r
  · intro c as ss hall
    have hvalid := (Op.createChannel c as ss uuid).code_valid cfg hv
    refine ((ends_createChannel cfg hv hnew hall).and
      (hvalid.and (Shape.ends_createChannel cfg hv c as ss))).mono ?_
    rintro res s' ⟨⟨hiff, hsubs⟩, hv', hmembers⟩
    refine ⟨hiff, fun id hres => ?_⟩
    obtain ⟨hid, hsubs⟩ := hsubs id hres
    refine ⟨hid, ?_, getSubscribers_perm hv' hsubs⟩
    have hnodup : as.Nodup := (hiff.mp ⟨id, hres⟩).2.1
    rw [← hnodup.dedup]
    refine roles_perm hv' fun u r => ?_
    simpa [Shape.Gives] using (hmembers id hres).members u r

/-- One user is not enough for a group, however often it is listed, but for a channel. -/
theorem alice_alone :
    (¬ ∃ id, ((ConversationService.createGroup default "a" ["a", "a"] "c").run (Call.exec default)
      (serve default {} registerAlice).state).1 = .ok id) ∧
    ∃ id, ((ConversationService.createChannel default "a" ["a"] ["a", "a"] "c").run
      (Call.exec default) (serve default {} registerAlice).state).1 = .ok id := by
  have hall : ∀ u ∈ ["a", "a", "a"], Exists u (serve default {} registerAlice).state.db := by decide
  obtain ⟨hgroup, hchannel⟩ := builds_what_is_requested default
    (s := (serve default {} registerAlice).state) (by decide) "c" (by decide)
  constructor
  · rw [(hgroup "a" ["a", "a"] (by decide)).1]
    decide
  · rw [(hchannel "a" ["a"] ["a", "a"] hall).1]
    decide

end VoxServer.Requested
