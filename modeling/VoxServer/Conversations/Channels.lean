import VoxServer.Server.Wiring

/-! # Members of channels

In a channel the subscribers take part; the rows of members are those of its owner and
admins, who are subscribers as well. They cannot unsubscribe, so when operations run one
after another, whoever is listed as a member of a conversation takes part in it.
-/

namespace VoxServer.Channels

open Interleaving Prog Table ConversationRepository

/-- The open memberships of channels belong to the owner and the admins, who are subscribers, up to
the key that the operation still has to subscribe. -/
def Staffed (x : ConversationId × UserId → Prop) (db : Database) : Prop :=
  ∀ m ∈ db.conversationMembers, m.removedAt = none → ∀ r ∈ db.conversations,
    r.conversationId = m.conversationId → r.type = .channel →
      (m.role = .owner ∨ m.role = .admin) ∧ (Joined .channel m.key db ∨ x m.key)

/-- Between operations nobody has to be subscribed. -/
abbrev nobody : ConversationId × UserId → Prop := fun _ => False

/-- A valid database in which members of channels are staff. -/
structure Orderly (x : ConversationId × UserId → Prop) (s : Server) : Prop where
  valid : s.db.Valid
  staffed : Staffed x s.db

section Calls

variable {cfg : ServerConfig} {x : ConversationId × UserId → Prop} {s : Server} {c : Call}

theorem Orderly.mono {y : ConversationId × UserId → Prop} (h : Orderly x s)
    (hxy : ∀ k, x k → y k) : Orderly y s := by
  refine ⟨h.valid, fun m hm ho r hr hid ht => ?_⟩
  obtain ⟨hrole, hin⟩ := h.staffed m hm ho r hr hid ht
  exact ⟨hrole, hin.imp_right (hxy _)⟩

variable (cfg) in
/-- A call of the repository keeps the staff of channels, if it neither adds a plain member to a
channel nor unsubscribes a member. -/
theorem Orderly.conversations {a : ConversationCall} (h : Orderly x s)
    (hadd : ∀ conv u role now, a = .addMember conv u role now →
      (∀ r ∈ s.db.conversations, r.conversationId = conv → r.type ≠ .channel) ∨
        (role = .owner ∨ role = .admin) ∧ x (conv, u))
    (hl : ∀ conv u now, a = .unsubscribe conv u now → ∀ m ∈ s.db.conversationMembers,
      m.removedAt = none → m.key ≠ (conv, u)) :
    Orderly x (Call.exec cfg (.conversations a) s).2 := by
  refine ⟨Call.exec_valid cfg _ h.valid, fun m hm ho r hr hid ht => ?_⟩
  rcases a.member_of_exec hm ho with hm₀ | ⟨conv, u, now, rfl, hk⟩
  · -- the member was there, and so was the conversation
    have hold : ∃ r₀ ∈ s.db.conversations, r₀.conversationId = m.conversationId ∧
        r₀.type = .channel := by
      rcases a.conversation_of_exec hr with ⟨r₀, hr₀, hid₀, ht₀⟩ | ⟨-, hnew⟩
      · exact ⟨r₀, hr₀, hid₀.trans hid, ht₀.trans ht⟩
      · obtain ⟨r₀, hr₀, hid₀⟩ := h.valid.members_conversation m hm₀
        exact absurd (hid₀.trans hid.symm) (hnew r₀ hr₀)
    obtain ⟨r₀, hr₀, hid₀, ht₀⟩ := hold
    obtain ⟨hrole, hin⟩ := h.staffed m hm₀ ho r₀ hr₀ hid₀ ht₀
    refine ⟨hrole, hin.imp_left (a.exec_subscribed ?_)⟩
    rintro now rfl
    exact hl _ _ now rfl m hm₀ ho rfl
  · obtain ⟨hc, -⟩ : m.conversationId = conv ∧ m.userId = u := Prod.mk.inj hk
    rcases hadd conv u m.role now rfl with hne | ⟨hrole, hx⟩
    · rcases ConversationCall.conversation_of_exec _ hr with ⟨r₀, hr₀, hid₀, ht₀⟩ | ⟨he, -⟩
      · exact absurd (ht₀.trans ht) (hne r₀ hr₀ (hid₀.trans (hid.trans hc)))
      · cases he
    · exact ⟨hrole, .inr (hk ▸ hx)⟩

theorem Orderly.elsewhere (h : Orderly x s) (hc : ∀ a, c ≠ .conversations a)
    (ha : ¬ c.isAdmin) : Orderly x (c.exec cfg s).2 := by
  refine ⟨Call.exec_valid cfg _ h.valid, ?_⟩
  obtain ⟨hm, hs⟩ := Call.exec_memberships cfg (s := s) hc ha
  simp only [Staffed, ConversationRepository.Joined, Call.exec_conversations cfg hc, hm, hs]
  exact h.staffed

theorem Orderly.call (h : Orderly x s)
    (hadd : ∀ conv u role now, c ≠ .conversations (.addMember conv u role now))
    (hl : ∀ conv u now, c ≠ .conversations (.unsubscribe conv u now)) (ha : ¬ c.isAdmin) :
    Orderly x (c.exec cfg s).2 := by
  by_cases hc : ∃ a, c = .conversations a
  · obtain ⟨a, rfl⟩ := hc
    refine h.conversations cfg ?_ ?_
    · rintro conv u role now rfl
      exact absurd rfl (hadd conv u role now)
    · rintro conv u now rfl
      exact absurd rfl (hl conv u now)
  · exact h.elsewhere (not_exists.mp hc) ha

theorem Orderly.tame (hc : c.tame) (h : Orderly x s) : Orderly x (c.exec cfg s).2 := by
  refine h.call ?_ ?_ ?_
  · rintro conv u role now rfl
    cases hc
  · rintro conv u now rfl
    cases hc
  · intro ha
    cases c with
    | admin a => cases hc
    | _ => cases ha

variable (cfg) in
theorem Orderly.deleteUserRows (h : Orderly nobody s) (u : UserId) :
    Orderly nobody (Call.exec cfg (.admin (.deleteUserRows u)) s).2 := by
  refine ⟨Call.exec_valid cfg _ h.valid, ?_⟩
  have hdb : (Call.exec cfg (.admin (.deleteUserRows u)) s).2.db = s.db ∨
      (Call.exec cfg (.admin (.deleteUserRows u)) s).2.db = AdminService.withoutUser u s.db :=
    AdminCall.exec_cases u s.db
  rcases hdb with hdb | hdb
  · rw [hdb]
    exact h.staffed
  · rw [hdb]
    intro m hm ho r hr hid ht
    obtain ⟨hm, hne⟩ := mem_deleteWhere.mp hm
    obtain ⟨hrole, hin⟩ := h.staffed m hm ho r hr hid ht
    obtain ⟨sub, hsub, hk, hopen⟩ := hin.resolve_right id
    refine ⟨hrole, .inl ⟨sub, mem_deleteWhere.mpr ⟨hsub, ?_⟩, hk, hopen⟩⟩
    have hu : sub.userId = m.userId := congrArg Prod.snd hk
    simpa [hu] using hne

theorem Orderly.subscribe {conv : ConversationId} {u : UserId} {now : Timestamp}
    (h : Orderly (· = (conv, u)) s)
    (hok : (ConversationRepository.subscribe conv u now s.db).1 = .ok ()) :
    Orderly nobody (Call.exec cfg (.conversations (.subscribe conv u now)) s).2 := by
  have h' : Orderly (· = (conv, u)) (Call.exec cfg (.conversations (.subscribe conv u now)) s).2 :=
    h.conversations cfg (by simp) (by simp)
  refine ⟨h'.valid, fun m hm ho r hr hid ht => ?_⟩
  obtain ⟨hrole, hin⟩ := h'.staffed m hm ho r hr hid ht
  refine ⟨hrole, .inl (hin.elim id fun hk => ?_)⟩
  rw [hk]
  exact joined_of_subscribe_ok hok

end Calls

section Operations

variable {cfg : ServerConfig} {s : Server} {conv : ConversationId}

def NotChannel (conv : ConversationId) (db : Database) : Prop :=
  ∀ r ∈ db.conversations, r.conversationId = conv → r.type ≠ .channel

theorem notChannel_of_find {r : ConversationRecord} (hv : s.db.Valid)
    (h : findById conv s.db = some r) (ht : r.type ≠ .channel) : NotChannel conv s.db := by
  obtain ⟨hr, hid⟩ := findById_eq_some h
  intro r' hr' hid'
  rwa [hv.conversations_pk.eq_of_mem hr' hr (hid'.trans hid.symm)]

theorem Orderly.addMembers {role : UserId → MemberRole} {now : Timestamp} {us : List UserId}
    (h : Orderly nobody s) (hn : NotChannel conv s.db) :
    (ConversationService.addMembers conv role now us).Ends (Call.exec cfg)
      (fun _ => Orderly nobody) s := by
  induction us generalizing s with
  | nil => exact h
  | cons u us ih =>
    refine ends_perform_bind.mpr ?_
    have h' : Orderly nobody
        (Call.exec cfg (.conversations (.addMember conv u (role u) now)) s).2 := by
      refine h.conversations cfg ?_ (by simp)
      rintro conv' u' role' now' ⟨⟩
      exact .inl hn
    split
    · exact h'
    · refine ih h' fun r hr hid => ?_
      rcases ConversationCall.conversation_of_exec _ hr with ⟨r₀, hr₀, hid₀, ht₀⟩ | ⟨he, -⟩
      · exact ht₀ ▸ hn r₀ hr₀ (hid₀.trans hid)
      · cases he

theorem Orderly.addAdmins {createdBy : UserId} {now : Timestamp} {us : List UserId}
    (h : Orderly nobody s) (hc : ∃ r ∈ s.db.conversations, r.conversationId = conv) :
    (ConversationService.addAdmins conv createdBy now us).Ends (Call.exec cfg)
      (fun _ => Orderly nobody) s := by
  induction us generalizing s with
  | nil => exact h
  | cons u us ih =>
    unfold ConversationService.addAdmins
    dsimp only
    generalize hrole : (if u = createdBy then MemberRole.owner else .admin) = role
    have hstaff : role = .owner ∨ role = .admin := by
      rw [← hrole]
      split
      · exact .inl rfl
      · exact .inr rfl
    refine ends_perform_bind.mpr ?_
    have h₁ : Orderly (· = (conv, u))
        (Call.exec cfg (.conversations (.addMember conv u role now)) s).2 := by
      refine (h.mono (by simp)).conversations cfg ?_ (by simp)
      rintro conv' u' role' now' ⟨⟩
      exact .inr ⟨hstaff, rfl⟩
    have hkeep : ∀ {c : Call} {s : Server}, (∃ r ∈ s.db.conversations, r.conversationId = conv) →
        ∃ r ∈ (c.exec cfg s).2.db.conversations, r.conversationId = conv := by
      rintro c s ⟨r, hr, hid⟩
      obtain ⟨r', hr', hid', -⟩ := Call.exec_keeps_conversation cfg (c := c) hr
      exact ⟨r', hr', hid'.trans hid⟩
    split
    · rename_i he
      have hdb : (Call.exec cfg (.conversations (.addMember conv u role now)) s).2.db = s.db :=
        addMember_error he
      exact ⟨h₁.valid, (hdb.symm ▸ h.staffed :)⟩
    · rename_i hok
      obtain ⟨user, huser, huid⟩ := (addMember_ok_iff h.valid hc role now).mp hok
      have hc₁ := hkeep (c := .conversations (.addMember conv u role now)) hc
      have hsub := (subscribe_ok_iff (u := u) h₁.valid hc₁ now).mpr
        ⟨user, by rwa [Call.exec_users cfg (by simp) (by simp [Call.isAdmin])], huid⟩
      refine ends_perform_bind.mpr ?_
      split
      · rename_i he
        exact absurd (he.symm.trans hsub) (by simp)
      · exact ih (h₁.subscribe hsub) (hkeep hc₁)

theorem Orderly.of_tame {α : Type} {p : ServerProg α} (hp : Tame p) (h : Orderly nobody s) :
    p.Ends (Call.exec cfg) (fun _ => Orderly nobody) s :=
  Only.ends hp (fun _ _ hc h => h.tame hc) h

variable (cfg) in
theorem Orderly.createConversation (h : Orderly nobody s) (r : ConversationRecord) :
    Orderly nobody (Call.exec cfg (.conversations (.createConversation r)) s).2 :=
  h.tame rfl

theorem createConversation_ok {r : ConversationRecord} {db : Database}
    (hok : (ConversationRepository.createConversation r db).1 = .ok ()) :
    (∀ r' ∈ db.conversations, r'.conversationId ≠ r.conversationId) ∧
      (ConversationRepository.createConversation r db).2 =
        { db with conversations := db.conversations ++ [r] } := by
  rcases createConversation_cases r db with ⟨-, e, he⟩ | ⟨hnew, -, he⟩
  · rw [he] at hok
    cases hok
  · exact ⟨hnew, by rw [he]⟩

theorem notChannel_of_create {r : ConversationRecord} {db : Database} (ht : r.type ≠ .channel)
    (hok : (ConversationRepository.createConversation r db).1 = .ok ()) :
    NotChannel r.conversationId (ConversationRepository.createConversation r db).2 := by
  obtain ⟨hnew, hdb⟩ := createConversation_ok hok
  rw [hdb]
  intro r' hr' hid
  rcases List.mem_append.mp hr' with hr' | hr'
  · exact absurd hid (hnew r' hr')
  · rwa [List.mem_singleton.mp hr']

theorem exists_of_create {r : ConversationRecord} {db : Database}
    (hok : (ConversationRepository.createConversation r db).1 = .ok ()) :
    ∃ r' ∈ (ConversationRepository.createConversation r db).2.conversations,
      r'.conversationId = r.conversationId := by
  rw [(createConversation_ok hok).2]
  exact ⟨r, List.mem_append_right _ List.mem_cons_self, rfl⟩

theorem Orderly.createDm (h : Orderly nobody s) (a b u : UserId) (uuid : String) :
    (ConversationService.createDm a b u uuid).Ends (Call.exec cfg)
      (fun _ => Orderly nobody) s := by
  unfold ConversationService.createDm
  split
  · exact h
  refine ends_perform_bind.mpr (ends_perform_bind.mpr ?_)
  have h₁ := h.createConversation cfg
    { conversationId := uuid, type := .dm, createdBy := u, createdAt := s.clock }
  split
  · exact h₁
  · rename_i hok
    refine Ends.bind ((h₁.addMembers (notChannel_of_create (by simp) hok)).mono fun r s h => ?_)
    split <;> exact h

theorem Orderly.createGroup (h : Orderly nobody s) (u : UserId) (us : List UserId)
    (uuid : String) : (ConversationService.createGroup cfg u us uuid).Ends (Call.exec cfg)
      (fun _ => Orderly nobody) s := by
  unfold ConversationService.createGroup
  dsimp only
  split
  · exact h
  split
  · exact h
  split
  · exact h
  refine ends_perform_bind.mpr (ends_perform_bind.mpr ?_)
  have h₁ := h.createConversation cfg
    { conversationId := uuid, type := .group, createdBy := u, createdAt := s.clock }
  split
  · exact h₁
  · rename_i hok
    refine Ends.bind ((h₁.addMembers (notChannel_of_create (by simp) hok)).mono fun r s h => ?_)
    split <;> exact h

theorem Orderly.createChannel (h : Orderly nobody s) (u : UserId) (as us : List UserId)
    (uuid : String) : (ConversationService.createChannel cfg u as us uuid).Ends (Call.exec cfg)
      (fun _ => Orderly nobody) s := by
  unfold ConversationService.createChannel
  split
  · exact h
  split
  · exact h
  split
  · exact h
  split
  · exact h
  refine ends_perform_bind.mpr (ends_perform_bind.mpr ?_)
  have h₁ := h.createConversation cfg
    { conversationId := uuid, type := .channel, createdBy := u, createdAt := s.clock
      policyBlob := "\x7b\"title\":\"\",\"channel_post_policy\":\"admins_only\"\x7d" }
  split
  · exact h₁
  · rename_i hok
    refine Ends.bind ((h₁.addAdmins (exists_of_create hok)).mono fun r s' h => ?_)
    split
    · exact h
    · have hsubs : Tame (ConversationService.addSubscribers uuid s.clock (us.filter (· ∉ as))) :=
        Op.only_addSubscribers (fun _ _ _ => rfl) _
      refine Ends.bind ((h.of_tame hsubs).mono fun r s h => ?_)
      split <;> exact h

theorem actorCanManageMembers_ends (r : ConversationRecord) (u : UserId) :
    (ConversationService.actorCanManageMembers r u).Ends (Call.exec cfg) (fun _ s' => s' = s)
      s := by
  refine ends_perform_bind.mpr ?_
  split <;> rfl

theorem Orderly.addMember (h : Orderly nobody s) (a u : UserId) (role : MemberRole) :
    (ConversationService.addMember cfg conv a u role).Ends (Call.exec cfg)
      (fun _ => Orderly nobody) s := by
  refine ends_perform_bind.mpr ?_
  split
  · rename_i r hr
    split
    · exact h
    split
    · exact h
    rename_i ht
    refine Ends.bind ((actorCanManageMembers_ends r a).mono fun ok s' hs => ?_)
    obtain rfl := hs
    split
    · exact h
    refine ends_perform_bind.mpr ?_
    split
    · exact h
    refine ends_perform_bind.mpr (h.conversations cfg ?_ (by simp))
    rintro conv' u' role' now' ⟨⟩
    exact .inl (notChannel_of_find h.valid hr ht)
  · exact h

theorem Orderly.purgeMemberDelivery (h : Orderly nobody s) (u : UserId) :
    (ConversationService.purgeMemberDelivery conv u).Ends (Call.exec cfg)
      (fun _ => Orderly nobody) s := by
  refine (Op.only_purgeMemberDelivery (P := fun c => ∀ s, Orderly nobody s →
    Orderly nobody (c.exec cfg s).2) ?_ ?_ ?_ conv u).ends (fun c s hc h => hc s h) h
  · exact fun c u d s h => h.elsewhere (by simp) (by simp [Call.isAdmin])
  · exact fun c u s h => h.elsewhere (by simp) (by simp [Call.isAdmin])
  · exact fun u s h => h.tame rfl

theorem Orderly.unsubscribeChannel (h : Orderly nobody s) (u : UserId) :
    (ConversationService.unsubscribeChannel conv u).Ends (Call.exec cfg)
      (fun _ => Orderly nobody) s := by
  refine ends_perform_bind.mpr ?_
  split
  · rename_i r hr
    split
    · exact h
    rename_i ht
    refine ends_perform_bind.mpr ?_
    split
    · exact h
    rename_i hrole
    have h₁ : Orderly nobody
        (Call.exec cfg (.conversations (.unsubscribe conv u s.clock)) s).2 := by
      refine h.conversations cfg (by simp) ?_
      rintro conv' u' now' ⟨⟩ m hm ho hk
      obtain ⟨hr, hid⟩ := findById_eq_some hr
      obtain ⟨hstaff, -⟩ := h.staffed m hm ho r hr (hid.trans (congrArg Prod.fst hk).symm)
        (not_not.mp ht)
      have hget : getMember conv u s.db = some m := by
        refine h.valid.members_pk.find?_eq_some hm (by simp [hk, ho]) fun m' _ hm' => ?_
        simp only [decide_eq_true_eq] at hm'
        exact hm'.1.trans hk.symm
      refine hrole ?_
      simpa [Call.exec, Call.onDb, ConversationCall.exec, hget] using hstaff
    refine ends_perform_bind.mpr (ends_perform_bind.mpr ?_)
    split
    · exact h₁
    · exact Ends.bind (h₁.purgeMemberDelivery u)
  · exact h

theorem Orderly.perform {o : Op} (h : Orderly nobody s)
    (hs : ∀ c, o = .single c → c.tame ∨ ∃ a, c = .delivery a) :
    (o.code cfg).Ends (Call.exec cfg) (fun _ => Orderly nobody) s := by
  cases o with
  | createDm a b u i => exact h.createDm a b u i
  | createGroup u us i => exact h.createGroup u us i
  | createChannel u as us i => exact h.createChannel u as us i
  | addMember c a u r => exact h.addMember a u r
  | unsubscribeChannel c u => exact h.unsubscribeChannel u
  | single c =>
    rcases hs c rfl with hc | ⟨a, rfl⟩
    · exact h.tame hc
    · exact h.elsewhere (by simp) (by simp [Call.isAdmin])
  | deleteUser u =>
    refine ends_perform_bind.mpr ?_
    split
    · exact h.deleteUserRows cfg u
    · exact h
  | _ =>
    refine (Op.code_only cfg _).ends (fun c s hc h => h.call ?_ ?_ ?_) h
    · rintro conv u role now rfl
      cases hc
    · rintro conv u now rfl
      cases hc
    · intro ha
      cases c with
      | admin a => cases hc
      | _ => cases ha

end Operations

/-- The operations of the services and the admin tool; direct calls are tame. -/
def service : Op → Bool
  | .single c => c.tame
  | _ => true

theorem Orderly.of_run {cfg : ServerConfig} {init s : Server} (h : Orderly nobody init)
    {acts : List (Op ⊕ Timestamp)} (hops : ∀ o, .inl o ∈ acts → service o)
    (hrun : Machine.run (voxServer cfg).atOnce init acts = some s) : Orderly nobody s := by
  refine (voxServer cfg).atOnce_invariant (p := fun _ => Sum.elim service fun _ => true)
    (fun s o h ho => ?_) (fun s t h => ⟨h.valid, h.staffed⟩) h hrun ?_
  · refine h.perform ?_
    rintro c rfl
    exact .inl ho
  · refine Machine.always_of_forall _ (fun a ha _ => ?_) _
    cases a with
    | inl o => exact hops o ha
    | inr t => rfl

end VoxServer.Channels
