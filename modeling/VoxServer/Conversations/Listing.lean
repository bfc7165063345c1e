import VoxServer.Conversations.Channels

/-! # The list of conversations

The list goes by the rows of members, access to a channel by the rows of subscribers.
Members of channels are subscribers, so whatever is listed can be accessed. A subscriber
who is not on the staff of a channel has access to it and does not find it in the list.
-/

namespace VoxServer.Channels

open Interleaving Prog Table ConversationRepository

def listed (cfg : ServerConfig) (u : UserId) (s : Server) : List ConversationId :=
  ((ConversationService.listForUser u).run (Call.exec cfg) s).1.map (·.1.conversationId)

/-- The list shows the conversations that the user can access, each one once. -/
def ListAgrees (cfg : ServerConfig) (u : UserId) (s : Server) : Prop :=
  (∀ conv, conv ∈ listed cfg u s ↔ isUserInConversation conv u s.db) ∧ (listed cfg u s).Nodup

/-- The user subscribes to no channel without being a member of it. -/
def NoPlainSubscription (u : UserId) (db : Database) : Prop :=
  ∀ sub ∈ db.channelSubscriptions, sub.userId = u → sub.unsubscribedAt = none →
    ∀ r ∈ db.conversations, r.conversationId = sub.conversationId → r.type = .channel →
      ∃ m ∈ db.conversationMembers, m.key = sub.key ∧ m.removedAt = none

instance (u : UserId) (db : Database) : Decidable (NoPlainSubscription u db) :=
  inferInstanceAs (Decidable (∀ sub ∈ db.channelSubscriptions, _))

section List

variable {cfg : ServerConfig} {u : UserId} {s : Server}

theorem listed_eq (hv : s.db.Valid) : listed cfg u s =
    (s.db.conversations.filter fun r => s.db.conversationMembers.any fun m =>
      m.key = (r.conversationId, u) ∧ m.removedAt = none).map (·.conversationId) := by
  have hjoin := hv.members_pk.flatMap_join
    (q := fun r m => decide (m.key = (r.conversationId, u) ∧ m.removedAt = none))
    (fun r m m' hm hm' => (of_decide_eq_true hm).1.trans (of_decide_eq_true hm').1.symm)
    s.db.conversations
  rw [← hjoin]
  simp [listed, ConversationService.listForUser, perform, Call.exec, Call.onDb,
    ConversationCall.exec, getConversationsForUser, List.map_flatMap]

theorem mem_listed (hv : s.db.Valid) {conv : ConversationId} : conv ∈ listed cfg u s ↔
    ∃ r ∈ s.db.conversations, r.conversationId = conv ∧
      ∃ m ∈ s.db.conversationMembers, m.key = (conv, u) ∧ m.removedAt = none := by
  simp only [listed_eq hv, List.mem_map, List.mem_filter, List.any_eq_true, decide_eq_true_eq]
  constructor
  · rintro ⟨r, ⟨hr, hm⟩, rfl⟩
    exact ⟨r, hr, rfl, hm⟩
  · rintro ⟨r, hr, rfl, hm⟩
    exact ⟨r, ⟨hr, hm⟩, rfl⟩

/-- While members of channels are subscribers, only plain subscriptions are missing in the list. -/
theorem listAgrees_iff (h : Orderly nobody s) :
    ListAgrees cfg u s ↔ NoPlainSubscription u s.db := by
  constructor
  · rintro ⟨hlist, -⟩ sub hsub rfl ho r hr hid ht
    have hin : isUserInConversation sub.conversationId sub.userId s.db := by
      refine (isUserInConversation_iff h.valid).mpr ⟨r, hr, hid, ?_⟩
      rw [ht]
      exact ⟨sub, hsub, rfl, ho⟩
    obtain ⟨-, -, -, hm⟩ := (mem_listed h.valid).mp ((hlist _).mpr hin)
    exact hm
  · intro hno
    refine ⟨fun conv => ?_, ?_⟩
    · rw [mem_listed h.valid, isUserInConversation_iff h.valid]
      refine exists_congr fun r => and_congr_right fun hr => and_congr_right fun hid => ?_
      cases ht : r.type with
      | dm => rfl
      | group => rfl
      | channel =>
        constructor
        · rintro ⟨m, hm, hk, ho⟩
          have hconv : r.conversationId = m.conversationId :=
            hid.trans (congrArg Prod.fst hk).symm
          obtain ⟨-, hjoined⟩ := h.staffed m hm ho r hr hconv ht
          exact hk ▸ hjoined.resolve_right id
        · rintro ⟨sub, hsub, hk, ho⟩
          obtain ⟨hc, hu⟩ : sub.conversationId = conv ∧ sub.userId = u := Prod.mk.inj hk
          obtain ⟨m, hm, hmk, hmo⟩ := hno sub hsub hu ho r hr (hid.trans hc.symm) ht
          exact ⟨m, hm, hmk.trans hk, hmo⟩
    · rw [listed_eq h.valid]
      exact h.valid.conversations_pk.sublist (List.filter_sublist.map _)

end List

/-- In every state that complete operations reach, the list of a user agrees with what the user can
access exactly if the user has no plain subscription. -/
theorem list_agrees_iff (cfg : ServerConfig) {init s : Server} (h : Orderly nobody init)
    {acts : List (Op ⊕ Timestamp)} (hops : ∀ o, .inl o ∈ acts → service o)
    (hrun : Machine.run (voxServer cfg).atOnce init acts = some s) (u : UserId) :
    ListAgrees cfg u s ↔ NoPlainSubscription u s.db :=
  listAgrees_iff (h.of_run hops hrun)

def registerUser (name : String) (u : UserId) : Op :=
  .register ⟨name, "p", "d", "", "k", "k", "k", "w", "w", "w"⟩ (some "s") u "d"
    ⟨u ++ "t", u ++ "r", u ++ "s"⟩

def subscribeBob : List (Op ⊕ Timestamp) :=
  [.inl (registerUser "alice" "a"), .inl (registerUser "bob" "b"),
    .inl (.createChannel "a" ["a"] [] "c"), .inl (.subscribeChannel "c" "b")]

theorem owner_finds_channel : ∃ s, Machine.run (voxServer default).atOnce {} subscribeBob = some s ∧
    listed default "a" s = ["c"] ∧ ListAgrees default "a" s := by
  have h0 : Orderly nobody {} := ⟨by decide, by simp [Staffed]⟩
  have hops : ∀ o, .inl o ∈ subscribeBob → service o := by
    simp [subscribeBob, registerUser, service]
  refine ⟨_, rfl, by decide, ?_⟩
  exact (list_agrees_iff default h0 hops rfl "a").mpr (by decide)

/-- The subscriber has access to the channel, and the list is empty. -/
theorem subscriber_misses_channel :
    ∃ s, Machine.run (voxServer default).atOnce {} subscribeBob = some s ∧
      isUserInConversation "c" "b" s.db ∧ listed default "b" s = [] ∧
      ¬ ListAgrees default "b" s := by
  refine ⟨_, rfl, by decide, by decide, fun h => ?_⟩
  exact absurd ((h.1 "c").mpr (by decide)) (by decide)

end VoxServer.Channels
