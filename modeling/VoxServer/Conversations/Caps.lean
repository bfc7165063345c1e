import Mathlib.Data.Finset.Option
import VoxServer.Interleaving.Spec
import VoxServer.Server.Wiring

/-! # The size limits of groups and channels

`AddMember` and `SubscribeChannel` look at the size first and insert later, and creating a
conversation inserts user by user. Others can insert in between, and then the limit can be
exceeded. If none does, it is kept.
-/

namespace VoxServer.Caps

open Interleaving Prog ConversationRepository

/-- What is limited: the members of a group, and the subscribers of a channel. -/
inductive Roll
  | members
  | subscribers
  deriving DecidableEq, Repr

namespace Roll

def type : Roll → ConversationType
  | members => .group
  | subscribers => .channel

def limit (cfg : ServerConfig) : Roll → ℕ
  | members => cfg.maxGroupSize
  | subscribers => cfg.maxChannelSize

def size (conv : ConversationId) (db : Database) : Roll → ℕ
  | members => getMemberCount conv db
  | subscribers => (getSubscribers conv db).length

def users (conv : ConversationId) (db : Database) : Roll → Finset UserId
  | members => ((getMembers conv db).map (·.userId)).toFinset
  | subscribers => (getSubscribers conv db).toFinset

end Roll

section Definitions

variable (roll : Roll) (conv : ConversationId)

/-- If the conversation is a group, it has at most `max_group_size` active members; if it is a
channel, at most `max_channel_size` active subscribers. -/
def Within (cfg : ServerConfig) (db : Database) : Prop :=
  ∀ r ∈ db.conversations, r.conversationId = conv → r.type = roll.type →
    roll.size conv db ≤ roll.limit cfg

instance (cfg : ServerConfig) (db : Database) : Decidable (Within roll conv cfg db) :=
  inferInstanceAs (Decidable (∀ r ∈ db.conversations, _))

def joins : Call → Option UserId
  | .conversations (.addMember c u _ _) => if roll = .members ∧ c = conv then some u else none
  | .conversations (.subscribe c u _) => if roll = .subscribers ∧ c = conv then some u else none
  | _ => none

/-- Whether the call tells how many there are, which is none when a conversation is created. -/
def checks : Call → Bool
  | .conversations (.getMemberCount c) => roll = .members ∧ c = conv
  | .conversations (.getSubscribers c) => roll = .subscribers ∧ c = conv
  | .conversations (.createConversation r) => r.type = roll.type ∧ r.conversationId = conv
  | _ => false

/-- Since the operation that inserts a user has looked at the size, no other one has inserted. -/
def Undisturbed (tr : List Ev) (ev : Ev) : Prop :=
  (joins roll conv ev.call).isSome →
    (∃ r ∈ ev.pre.db.conversations, r.conversationId = conv ∧ r.type = roll.type) →
      Since (fun e => e.tid = ev.tid ∧ checks roll conv e.call)
        (fun e => e.tid ≠ ev.tid ∧ (joins roll conv e.call).isSome) tr

instance (tr : List Ev) (ev : Ev) : Decidable (Undisturbed roll conv tr ev) :=
  inferInstanceAs (Decidable (_ → _ → Since _ _ tr))

def joined (es : List Ev) : Finset UserId := (es.filterMap fun e => joins roll conv e.call).toFinset

end Definitions

section Calls

variable {cfg : ServerConfig} {roll : Roll} {conv : ConversationId} {db : Database} {u : UserId}
  {s : Server} {c : Call}

theorem mem_users :
    u ∈ roll.users conv db ↔ ConversationRepository.Joined roll.type (conv, u) db := by
  cases roll with
  | members =>
    simp only [Roll.users, List.mem_toFinset, List.mem_map, mem_getMembers]
    constructor
    · rintro ⟨m, ⟨hm, hid, ho⟩, rfl⟩
      exact ⟨m, hm, Prod.ext hid rfl, ho⟩
    · rintro ⟨m, hm, hk, ho⟩
      obtain ⟨hid, hu⟩ := Prod.mk.inj hk
      exact ⟨m, ⟨hm, hid, ho⟩, hu⟩
  | subscribers =>
    simp only [Roll.users, List.mem_toFinset, mem_getSubscribers]
    constructor
    · rintro ⟨x, hx, ⟨hid, ho⟩, rfl⟩
      exact ⟨x, hx, Prod.ext hid rfl, ho⟩
    · rintro ⟨x, hx, hk, ho⟩
      obtain ⟨hid, hu⟩ := Prod.mk.inj hk
      exact ⟨x, hx, ⟨hid, ho⟩, hu⟩

theorem size_eq_card (hv : db.Valid) : roll.size conv db = (roll.users conv db).card := by
  cases roll with
  | members =>
    rw [Roll.users, List.toFinset_card_of_nodup (nodup_getMembers hv conv), List.length_map]
    exact (length_getMembers conv db).symm
  | subscribers => exact (List.toFinset_card_of_nodup (nodup_getSubscribers hv conv)).symm

theorem conversation_of_mem (hv : db.Valid) (h : u ∈ roll.users conv db) :
    ∃ r ∈ db.conversations, r.conversationId = conv := by
  rw [mem_users] at h
  cases roll with
  | members =>
    obtain ⟨m, hm, hk, -⟩ := h
    obtain ⟨r, hr, hid⟩ := hv.members_conversation m hm
    exact ⟨r, hr, hid.trans (congrArg Prod.fst hk)⟩
  | subscribers =>
    obtain ⟨x, hx, hk, -⟩ := h
    obtain ⟨r, hr, hid⟩ := hv.subscriptions_conversation x hx
    exact ⟨r, hr, hid.trans (congrArg Prod.fst hk)⟩

theorem users_eq_empty (hv : db.Valid) (h : ∀ r ∈ db.conversations, r.conversationId ≠ conv) :
    roll.users conv db = ∅ := by
  apply Finset.eq_empty_of_forall_notMem
  intro u hu
  obtain ⟨r, hr, hid⟩ := conversation_of_mem hv hu
  exact h r hr hid

theorem joins_eq_some (h : joins roll conv c = some u) :
    (roll = .members ∧ ∃ role now, c = .conversations (.addMember conv u role now)) ∨
      roll = .subscribers ∧ ∃ now, c = .conversations (.subscribe conv u now) := by
  unfold joins at h
  split at h
  · obtain ⟨⟨rfl, rfl⟩, hu⟩ := Option.ite_none_right_eq_some.mp h
    obtain rfl := Option.some.inj hu
    exact .inl ⟨rfl, _, _, rfl⟩
  · obtain ⟨⟨rfl, rfl⟩, hu⟩ := Option.ite_none_right_eq_some.mp h
    obtain rfl := Option.some.inj hu
    exact .inr ⟨rfl, _, rfl⟩
  · cases h

theorem joins_of_checks (h : checks roll conv c) : joins roll conv c = none := by
  rw [Option.eq_none_iff_forall_ne_some]
  intro u hu
  rcases joins_eq_some hu with ⟨-, _, _, rfl⟩ | ⟨-, _, rfl⟩
  · cases h
  · cases h

variable (cfg) in
theorem users_exec :
    roll.users conv (c.exec cfg s).2.db ⊆ roll.users conv s.db ∪ (joins roll conv c).toFinset := by
  intro u hu
  rw [Finset.mem_union, Option.mem_toFinset, mem_users]
  rw [mem_users] at hu
  by_cases hc : ∃ a, c = .conversations a
  · obtain ⟨a, rfl⟩ := hc
    cases roll with
    | members =>
      obtain ⟨m, hm, hk, ho⟩ := hu
      rcases a.member_of_exec hm ho with hm | ⟨conv', u', now, rfl, hk'⟩
      · exact .inl ⟨m, hm, hk, ho⟩
      · obtain ⟨rfl, rfl⟩ := Prod.mk.inj (hk.symm.trans hk')
        exact .inr (by simp [joins])
    | subscribers =>
      obtain ⟨x, hx, hk, ho⟩ := hu
      rcases a.subscription_of_exec hx ho with hx | ⟨conv', u', now, rfl, hk'⟩
      · exact .inl ⟨x, hx, hk, ho⟩
      · obtain ⟨rfl, rfl⟩ := Prod.mk.inj (hk.symm.trans hk')
        exact .inr (by simp [joins])
  · left
    obtain ⟨hm, hs⟩ := Call.exec_memberships_subset cfg (s := s) (not_exists.mp hc)
    cases roll with
    | members =>
      obtain ⟨m, hmem, h⟩ := hu
      exact ⟨m, hm hmem, h⟩
    | subscribers =>
      obtain ⟨x, hmem, h⟩ := hu
      exact ⟨x, hs hmem, h⟩

end Calls

section Operations

variable {cfg : ServerConfig} {roll : Roll} {conv : ConversationId} {es : List Ev}
  {A : Finset UserId} {u : UserId} {s : Server} {c : Call} {i : ℕ}

/-- All users counted when the calls looked at the size, or inserted by them since, are in `A`, and
it is not too large unless it already was. -/
def Admits (cfg : ServerConfig) (roll : Roll) (conv : ConversationId) (A : Finset UserId)
    (es : List Ev) : Prop :=
  ∀ es₁ e es₂, es = es₁ ++ e :: es₂ → checks roll conv e.call →
    roll.users conv e.pre.db ∪ joined roll conv es₂ ⊆ A ∧
      A.card ≤ max (roll.limit cfg) (roll.users conv e.pre.db).card

/-- A user is inserted only where there is room, as far as the operation knows. -/
def Fits (cfg : ServerConfig) (es : List Ev) (ev : Ev) : Prop :=
  ∀ roll conv, ∀ u ∈ joins roll conv ev.call, ∃ A, u ∈ A ∧ Admits cfg roll conv A es

/-- The calls have not looked at the size of the conversation. -/
def Unchecked (conv : ConversationId) (es : List Ev) : Prop :=
  ∀ e ∈ es, ∀ roll, ¬ checks roll conv e.call

def Enters (conv : ConversationId) (A : Finset UserId) (c : Call) : Prop :=
  ∃ u ∈ A, (∃ role now, c = .conversations (.addMember conv u role now)) ∨
    ∃ now, c = .conversations (.subscribe conv u now)

abbrev Fitting {α : Type} (cfg : ServerConfig) (p : ServerProg α) (es : List Ev) : Prop :=
  p.Spec (Call.exec cfg) (fun s => s.db.Valid) (Fits cfg) (fun _ _ => True) es

theorem joined_snoc : joined roll conv (es ++ [⟨i, c, s⟩]) =
    joined roll conv es ∪ (joins roll conv c).toFinset := by
  ext u
  simp [joined, List.filterMap_append]

theorem Unchecked.admits (h : Unchecked conv es) : Admits cfg roll conv A es := by
  rintro es₁ e es₂ rfl hch
  exact absurd hch (h e (by simp) roll)

theorem Unchecked.snoc (h : Unchecked conv es) (hc : ∀ roll, ¬ checks roll conv c) :
    Unchecked conv (es ++ [⟨i, c, s⟩]) := by
  intro e he
  rcases List.mem_append.mp he with he | he
  · exact h e he
  · rw [List.mem_singleton.mp he]
    exact hc

theorem Unchecked.admits_snoc (h : Unchecked conv es)
    (hc : checks roll conv c → roll.users conv s.db ⊆ A ∧
      A.card ≤ max (roll.limit cfg) (roll.users conv s.db).card) :
    Admits cfg roll conv A (es ++ [⟨i, c, s⟩]) := by
  intro es₁ e es₂ he hch
  rcases snoc_eq_append_cons he with ⟨rfl, rfl, rfl⟩ | ⟨m, rfl, rfl⟩
  · simpa [joined] using hc hch
  · exact absurd hch (h e (by simp) roll)

theorem Admits.snoc (h : Admits cfg roll conv A es) (hc : ¬ checks roll conv c)
    (hj : ∀ u ∈ joins roll conv c, u ∈ A) : Admits cfg roll conv A (es ++ [⟨i, c, s⟩]) := by
  intro es₁ e es₂ he hch
  rcases snoc_eq_append_cons he with ⟨rfl, rfl, rfl⟩ | ⟨m, rfl, rfl⟩
  · exact absurd hch hc
  · obtain ⟨hsub, hcard⟩ := h es₁ e m rfl hch
    refine ⟨?_, hcard⟩
    rw [joined_snoc, ← Finset.union_assoc]
    apply Finset.union_subset hsub
    intro u hu
    exact hj u (Option.mem_toFinset.mp hu)

theorem fits_of_none (h : ∀ roll conv, joins roll conv c = none) : Fits cfg es ⟨i, c, s⟩ := by
  intro roll conv u hu
  rw [h] at hu
  cases hu

theorem Enters.not_checks (h : Enters conv A c) : ¬ checks roll conv c := by
  obtain ⟨u, -, ⟨role, now, rfl⟩ | ⟨now, rfl⟩⟩ := h
  · simp [checks]
  · simp [checks]

theorem Enters.joins {conv' : ConversationId} (h : Enters conv A c)
    (hu : u ∈ joins roll conv' c) : conv' = conv ∧ u ∈ A := by
  obtain ⟨u', hA, ⟨role, now, rfl⟩ | ⟨now, rfl⟩⟩ := h
  · rcases joins_eq_some hu with ⟨-, _, _, he⟩ | ⟨-, _, he⟩
    · cases he
      exact ⟨rfl, hA⟩
    · cases he
  · rcases joins_eq_some hu with ⟨-, _, _, he⟩ | ⟨-, _, he⟩
    · cases he
    · cases he
      exact ⟨rfl, hA⟩

theorem fitting_of_enters {α : Type} {p : ServerProg α} (hp : p.Only (Enters conv A))
    (h : ∀ roll, Admits cfg roll conv A es) : Fitting cfg p es := by
  refine (hp.spec (I := fun es => ∀ roll, Admits cfg roll conv A es) ?_ h).mono fun _ _ _ => trivial
  intro es i c s hc h
  constructor
  · intro roll conv' u hu
    obtain ⟨rfl, hA⟩ := hc.joins hu
    exact ⟨A, hA, h roll⟩
  · intro roll
    exact (h roll).snoc hc.not_checks fun u hu => (hc.joins hu).2

theorem fitting_of_none {α : Type} {p : ServerProg α}
    (hp : p.Only fun c => ∀ roll conv, joins roll conv c = none) : Fitting cfg p es := by
  refine (hp.spec (I := fun _ => True) ?_ trivial).mono fun _ _ _ => trivial
  intro es i c s hc _
  exact ⟨fits_of_none hc, trivial⟩

theorem fitting_create {α : Type} {r : ConversationRecord} {p : VoidResult → ServerProg α}
    (hes : Unchecked r.conversationId es)
    (hA : ∀ roll : Roll, r.type = roll.type → A.card ≤ roll.limit cfg)
    (herr : ∀ e es, Fitting cfg (p (.error e)) es)
    (hok : (p (.ok ())).Only (Enters r.conversationId A)) :
    Fitting cfg (ask (.conversations (.createConversation r)) >>= p) es := by
  refine spec_perform_bind.mpr fun i s hv => ⟨fits_of_none fun _ _ => rfl, ?_⟩
  simp only [Call.exec, Call.onDb, ConversationCall.exec]
  rcases createConversation_cases r s.db with ⟨-, e, he⟩ | ⟨hnew, -, he⟩
  · rw [he]
    exact herr e _
  · rw [he]
    refine fitting_of_enters hok fun roll => hes.admits_snoc fun hch => ?_
    rw [users_eq_empty hv hnew]
    simp only [checks, decide_eq_true_eq] at hch
    exact ⟨Finset.empty_subset A, le_max_of_le_left (hA roll hch.1)⟩

theorem fitting_createDm (a b u : UserId) (uuid : String) :
    Fitting cfg (ConversationService.createDm a b u uuid) [] := by
  unfold ConversationService.createDm
  split
  · trivial
  refine spec_perform_bind.mpr fun i s _ => ⟨fits_of_none fun _ _ => rfl, ?_⟩
  dsimp only
  apply fitting_create (A := {a, b, u})
  · simp [Unchecked, checks]
  · intro roll h
    cases roll <;> cases h
  · exact fun _ _ => trivial
  · refine (Op.only_addMembers ?_ _ _).bind fun r => ?_
    · intro v hv role now
      refine ⟨v, ?_, .inl ⟨role, now, rfl⟩⟩
      grind
    · split <;> trivial

theorem fitting_createGroup (u : UserId) (us : List UserId) (uuid : String) :
    Fitting cfg (ConversationService.createGroup cfg u us uuid) [] := by
  unfold ConversationService.createGroup
  dsimp only
  repeat' split
  case isFalse.isFalse.isFalse hmax =>
    refine spec_perform_bind.mpr fun i s _ => ⟨fits_of_none fun _ _ => rfl, ?_⟩
    apply fitting_create (A := (ConversationService.sortUnique us).toFinset)
    · simp [Unchecked, checks]
    · intro roll h
      cases roll with
      | members => exact (List.toFinset_card_le _).trans (not_lt.mp hmax)
      | subscribers => cases h
    · exact fun _ _ => trivial
    · refine (Op.only_addMembers ?_ _ _).bind fun r => ?_
      · intro v hv role now
        exact ⟨v, List.mem_toFinset.mpr hv, .inl ⟨role, now, rfl⟩⟩
      · split <;> trivial
  all_goals trivial

theorem fitting_createChannel (u : UserId) (as us : List UserId) (uuid : String) :
    Fitting cfg (ConversationService.createChannel cfg u as us uuid) [] := by
  unfold ConversationService.createChannel
  dsimp only
  repeat' split
  case h_2.isFalse seen n hadmins hmax =>
    obtain ⟨-, hcount⟩ := ConversationService.countSubscribers_of_countAdmins hadmins us
    rw [hcount, List.card_toFinset] at hmax
    refine spec_perform_bind.mpr fun i s _ => ⟨fits_of_none fun _ _ => rfl, ?_⟩
    have hin : ∀ v, v ∈ as ∨ v ∈ us → v ∈ (as ++ us).dedup.toFinset := by simp
    apply fitting_create (A := (as ++ us).dedup.toFinset)
    · simp [Unchecked, checks]
    · intro roll h
      cases roll with
      | members => cases h
      | subscribers => exact (List.toFinset_card_le _).trans (not_lt.mp hmax)
    · exact fun _ _ => trivial
    · refine (Op.only_addAdmins ?_ ?_ _ _).bind fun r => ?_
      · exact fun v hv role now => ⟨v, hin v (.inl hv), .inl ⟨role, now, rfl⟩⟩
      · exact fun v hv now => ⟨v, hin v (.inl hv), .inr ⟨now, rfl⟩⟩
      split
      · trivial
      refine (Op.only_addSubscribers ?_ _).bind fun r => ?_
      · exact fun v hv now => ⟨v, hin v (.inr (List.mem_filter.mp hv).1), .inr ⟨now, rfl⟩⟩
      split <;> trivial
  all_goals trivial

theorem fitting_insert {α : Type} {p : Timestamp → ServerProg α}
    (hp : ∀ now, (p now).Only (Enters conv A)) (h : ∀ roll, Admits cfg roll conv A es) :
    Fitting cfg (ask .now >>= p) es := by
  refine spec_perform_bind.mpr fun i s _ => ⟨fits_of_none fun _ _ => rfl, ?_⟩
  refine fitting_of_enters (hp _) fun roll => (h roll).snoc ?_ ?_
  · simp [checks]
  · simp [joins]

theorem spec_actorCanManageMembers (r : ConversationRecord) (a : UserId)
    (h : Unchecked conv es) : (ConversationService.actorCanManageMembers r a).Spec (Call.exec cfg)
      (fun s => s.db.Valid) (Fits cfg) (fun es _ => Unchecked conv es) es := by
  refine spec_perform_bind.mpr fun i s _ => ⟨fits_of_none fun _ _ => rfl, ?_⟩
  have h' := h.snoc (c := .conversations (.getMember r.conversationId a)) (s := s) (i := i)
    (by simp [checks])
  split
  · exact h'
  · exact h'

theorem fitting_addMember (a u : UserId) (role : MemberRole) :
    Fitting cfg (ConversationService.addMember cfg conv a u role) [] := by
  refine spec_perform_bind.mpr fun i₀ s₀ _ => ⟨fits_of_none fun _ _ => rfl, ?_⟩
  have h : Unchecked conv ([] ++ [⟨i₀, .conversations (.findById conv), s₀⟩]) := by
    simp [Unchecked, checks]
  repeat' split
  case h_1.isFalse.isFalse =>
    refine (spec_actorCanManageMembers _ a h).bind fun es ok h => ?_
    split
    · trivial
    refine spec_perform_bind.mpr fun i s hv => ⟨fits_of_none fun _ _ => rfl, ?_⟩
    split
    · trivial
    rename_i hmax
    apply fitting_insert (A := insert u (Roll.members.users conv s.db))
    · intro now
      exact only_ask.mpr ⟨u, Finset.mem_insert_self _ _, .inl ⟨role, now, rfl⟩⟩
    · refine fun roll => h.admits_snoc fun hch => ?_
      obtain rfl : roll = .members := by simpa [checks] using hch
      have hsize : Roll.members.size conv s.db < cfg.maxGroupSize := not_le.mp hmax
      rw [size_eq_card hv] at hsize
      refine ⟨Finset.subset_insert _ _, le_max_of_le_left ?_⟩
      exact (Finset.card_insert_le _ _).trans hsize
  all_goals trivial

theorem fitting_subscribeChannel (u : UserId) :
    Fitting cfg (ConversationService.subscribeChannel cfg conv u) [] := by
  refine spec_perform_bind.mpr fun i₀ s₀ _ => ⟨fits_of_none fun _ _ => rfl, ?_⟩
  have h : Unchecked conv ([] ++ [⟨i₀, .conversations (.findById conv), s₀⟩]) := by
    simp [Unchecked, checks]
  repeat' split
  case h_1.isFalse =>
    refine spec_perform_bind.mpr fun i s hv => ⟨fits_of_none fun _ _ => rfl, ?_⟩
    split
    · trivial
    rename_i hmax
    apply fitting_insert (A := insert u (Roll.subscribers.users conv s.db))
    · intro now
      exact only_ask.mpr ⟨u, Finset.mem_insert_self _ _, .inr ⟨now, rfl⟩⟩
    · refine fun roll => h.admits_snoc fun hch => ?_
      obtain rfl : roll = .subscribers := by simpa [checks] using hch
      refine ⟨Finset.subset_insert _ _, ?_⟩
      by_cases hu : u ∈ getSubscribers conv s.db
      · -- who is subscribed already may subscribe again
        have hin : u ∈ Roll.subscribers.users conv s.db := List.mem_toFinset.mpr hu
        rw [Finset.insert_eq_of_mem hin]
        exact le_max_right _ _
      · have hsize : Roll.subscribers.size conv s.db < cfg.maxChannelSize :=
          not_le.mp fun hle => hmax ⟨hu, hle⟩
        rw [size_eq_card hv] at hsize
        exact le_max_of_le_left ((Finset.card_insert_le _ _).trans hsize)
  all_goals trivial

theorem joins_eq_none (hm : ∀ c' u role now, c ≠ .conversations (.addMember c' u role now))
    (hs : ¬ c.subscribes) (roll : Roll) (conv : ConversationId) : joins roll conv c = none := by
  rw [Option.eq_none_iff_forall_ne_some]
  intro u hu
  rcases joins_eq_some hu with ⟨-, role, now, rfl⟩ | ⟨-, now, rfl⟩
  · exact hm _ _ _ _ rfl
  · exact hs rfl

theorem fitting_code (o : Op) : Fitting cfg (o.code cfg) [] := by
  cases o with
  | single c =>
    refine fun i s _ => ⟨fun roll conv u hu => ⟨{u}, Finset.mem_singleton_self u, ?_⟩, trivial⟩
    exact Unchecked.admits (by simp [Unchecked])
  | createDm a b u i => exact fitting_createDm a b u i
  | createGroup u us i => exact fitting_createGroup u us i
  | createChannel u as us i => exact fitting_createChannel u as us i
  | addMember c a u role => exact fitting_addMember a u role
  | subscribeChannel c u => exact fitting_subscribeChannel u
  | _ =>
    refine fitting_of_none ((Op.code_calls cfg _).mono fun c hc => joins_eq_none ?_ ?_)
    · rintro c' u role now rfl
      cases hc.1
    · exact fun hs => by cases hc.2 hs

end Operations

section Runs

variable {cfg : ServerConfig} {roll : Roll} {conv : ConversationId} {init : Server}
  {acts : List Act}

theorem users_stretch (roll : Roll) (conv : ConversationId) :
    Always (fun tr ev => ∀ l₁ a l₂, tr = l₁ ++ a :: l₂ →
      roll.users conv ev.pre.db ⊆ roll.users conv a.pre.db ∪ joined roll conv (a :: l₂))
      (serve cfg init acts).trace := by
  apply (voxServer cfg).stretch_invariant (J := fun _ => True) (D := fun es s s' =>
    roll.users conv s'.db ⊆ roll.users conv s.db ∪ joined roll conv es) (fun _ _ => trivial)
  · exact fun s => Finset.subset_union_left
  · intro es s ev _ ih
    rw [show es ++ [ev] = es ++ [⟨ev.tid, ev.call, ev.pre⟩] from rfl, joined_snoc,
      ← Finset.union_assoc]
    exact (users_exec cfg).trans (Finset.union_subset_union_left ih)
  · exact fun _ _ _ _ h => h

theorem joined_subset {i : ℕ} {a : Ev} {l : List Ev} (ha : checks roll conv a.call)
    (hl : ∀ e ∈ l, ¬ (e.tid ≠ i ∧ (joins roll conv e.call).isSome)) :
    joined roll conv (a :: l) ⊆ joined roll conv (localTrace i l) := by
  intro u hu
  obtain ⟨e, he, hj⟩ := List.mem_filterMap.mp (List.mem_toFinset.mp hu)
  rcases List.mem_cons.mp he with rfl | he
  · rw [joins_of_checks ha] at hj
    cases hj
  · refine List.mem_toFinset.mpr (List.mem_filterMap.mpr ⟨e, ?_, hj⟩)
    refine List.mem_filter.mpr ⟨he, decide_eq_true ?_⟩
    by_contra hne
    exact hl e he ⟨hne, by simp [hj]⟩

/-- What is known when a call is made: the operation has looked for room, and since any earlier
call users were only inserted, and conversations have kept their types. -/
structure Known (cfg : ServerConfig) (roll : Roll) (conv : ConversationId) (tr : List Ev)
    (ev : Ev) : Prop where
  valid : ev.pre.db.Valid
  fits : Fits cfg (localTrace ev.tid tr) ev
  users : ∀ l₁ a l₂, tr = l₁ ++ a :: l₂ →
    roll.users conv ev.pre.db ⊆ roll.users conv a.pre.db ∪ joined roll conv (a :: l₂)
  types : ∀ ev' ∈ tr, ∀ r ∈ ev'.pre.db.conversations,
    ∃ r' ∈ ev.pre.db.conversations, r'.conversationId = r.conversationId ∧ r'.type = r.type

theorem known_run (roll : Roll) (conv : ConversationId) (hv : init.db.Valid) :
    Always (Known cfg roll conv) (serve cfg init acts).trace := by
  have hvalid := (serve_valid cfg hv acts).2
  have hfits : Always (fun tr ev => Fits cfg (localTrace ev.tid tr) ev)
      (serve cfg init acts).trace :=
    always_local ((voxServer cfg).always_spec hvalid fun o _ => fitting_code o)
  have h := ((always_of_mem hvalid).and hfits).and
    ((users_stretch roll conv).and (serve_keeps_type cfg init acts))
  exact h.imp fun _ _ ⟨⟨hvalid, hfits⟩, husers, htypes⟩ => ⟨hvalid, hfits, husers, htypes⟩

section Step

variable {tr : List Ev} {ev : Ev} {r : ConversationRecord}

theorem Known.card_le (hk : Known cfg roll conv tr ev) (hr : r ∈ ev.pre.db.conversations)
    (hid : r.conversationId = conv) (ht : r.type = roll.type) {a : Ev} (ha : a ∈ tr)
    (hv : a.pre.db.Valid) (h : Within roll conv cfg a.pre.db) :
    (roll.users conv a.pre.db).card ≤ roll.limit cfg := by
  rcases Finset.eq_empty_or_nonempty (roll.users conv a.pre.db) with hempty | ⟨u, hu⟩
  · simp [hempty]
  obtain ⟨r₀, hr₀, hid₀⟩ := conversation_of_mem hv hu
  obtain ⟨r₁, hr₁, hid₁, ht₁⟩ := hk.types a ha r₀ hr₀
  have hsame := hk.valid.conversations_pk.eq_of_mem hr₁ hr (hid₁.trans (hid₀.trans hid.symm))
  rw [← size_eq_card hv]
  exact h r₀ hr₀ hid₀ (ht₁.symm.trans (hsame ▸ ht))

theorem Known.card_insert_le (hk : Known cfg roll conv tr ev) (hr : r ∈ ev.pre.db.conversations)
    (hid : r.conversationId = conv) (ht : r.type = roll.type) {u : UserId}
    (hu : u ∈ joins roll conv ev.call) (hun : Undisturbed roll conv tr ev)
    (htr : ∀ e ∈ tr, e.pre.db.Valid ∧ Within roll conv cfg e.pre.db) :
    (roll.users conv ev.pre.db ∪ {u}).card ≤ roll.limit cfg := by
  have hsome : (joins roll conv ev.call).isSome := Option.isSome_of_mem hu
  obtain ⟨l₁, a, l₂, rfl, ⟨htid, hch⟩, hl₂⟩ := hun hsome ⟨r, hr, hid, ht⟩
  obtain ⟨A, huA, hA⟩ := hk.fits roll conv u hu
  have hlocal : localTrace ev.tid (l₁ ++ a :: l₂) =
      localTrace ev.tid l₁ ++ a :: localTrace ev.tid l₂ := by
    simp [localTrace, htid]
  obtain ⟨hsub, hcard⟩ := hA _ a _ hlocal hch
  obtain ⟨hva, hwa⟩ := htr a (by simp)
  calc (roll.users conv ev.pre.db ∪ {u}).card
    _ ≤ A.card := by
      apply Finset.card_le_card
      refine Finset.union_subset ?_ (Finset.singleton_subset_iff.mpr huA)
      refine ((hk.users l₁ a l₂ rfl).trans ?_).trans hsub
      exact Finset.union_subset_union_right (joined_subset hch hl₂)
    _ ≤ max (roll.limit cfg) (roll.users conv a.pre.db).card := hcard
    _ ≤ roll.limit cfg := max_le le_rfl (hk.card_le hr hid ht (by simp) hva hwa)

theorem Known.within (hk : Known cfg roll conv tr ev) (hun : Undisturbed roll conv tr ev)
    (h : Within roll conv cfg ev.pre.db)
    (htr : ∀ e ∈ tr, e.pre.db.Valid ∧ Within roll conv cfg e.pre.db) :
    Within roll conv cfg (ev.call.exec cfg ev.pre).2.db := by
  intro r hr hid ht
  rw [size_eq_card (Call.exec_valid cfg _ hk.valid)]
  refine (Finset.card_le_card (users_exec cfg)).trans ?_
  cases hj : joins roll conv ev.call with
  | none =>
    simp only [Option.toFinset_none, Finset.union_empty]
    rcases Call.conversation_of_exec cfg hr with ⟨r₀, hr₀, hid₀, ht₀⟩ | ⟨-, hnew⟩
    · rw [← size_eq_card hk.valid]
      exact h r₀ hr₀ (hid₀.trans hid) (ht₀.trans ht)
    · rw [users_eq_empty hk.valid (hid ▸ hnew)]
      exact Nat.zero_le _
  | some u =>
    rcases Call.conversation_of_exec cfg hr with ⟨r₀, hr₀, hid₀, ht₀⟩ | ⟨hcall, -⟩
    · exact hk.card_insert_le hr₀ (hid₀.trans hid) (ht₀.trans ht) hj hun htr
    · rw [hcall] at hj
      cases hj

end Step

/-- From any valid database that keeps the limit of a group or channel, in any run in which no
other request inserts between the look at the size and the insertion, the limit is kept. -/
theorem limit_kept (cfg : ServerConfig) (roll : Roll) (conv : ConversationId) {init : Server}
    (hv : init.db.Valid) (h0 : Within roll conv cfg init.db) (acts : List Act)
    (hun : Always (Undisturbed roll conv) (serve cfg init acts).trace) :
    Within roll conv cfg (serve cfg init acts).state.db := by
  refine ((voxServer cfg).always_invariant (hun.and (known_run roll conv hv))
    (I := fun tr s => Within roll conv cfg s.db ∧
      ∀ e ∈ tr, e.pre.db.Valid ∧ Within roll conv cfg e.pre.db) ⟨h0, by simp⟩ ?_ ?_).1.1
  · rintro tr s i c ⟨hun, hk⟩ ⟨h, htr⟩
    refine ⟨hk.within hun h htr, fun e he => ?_⟩
    rcases List.mem_append.mp he with he | he
    · exact htr e he
    · rw [List.mem_singleton.mp he]
      exact ⟨hk.valid, h⟩
  · exact fun _ _ _ h => h

end Runs

def fourUsers : Server where
  db := { users := ["a", "b", "x", "y"].map fun u =>
    { (default : UserRecord) with userId := u, username := u } }

def smallGroups : ServerConfig := { (default : ServerConfig) with maxGroupSize := 3 }

def addTwo (order : List ℕ) : List Act :=
  .spawn (.createGroup "a" ["a", "b"] "c") :: List.replicate 4 (.run 0) ++
    .spawn (.addMember "c" "a" "x" .member) :: .spawn (.addMember "c" "a" "y" .member) ::
      order.map .run

def inTurn : List Act := addTwo [1, 1, 1, 1, 1, 2, 2, 2]

def atOnce : List Act := addTwo [1, 1, 1, 2, 2, 2, 1, 1, 2, 2]

/-- One after the other, and the second one is refused. -/
theorem inTurn_within :
    getMemberCount "c" (serve smallGroups fourUsers inTurn).state.db = 3 ∧
    (serve smallGroups fourUsers inTurn).threads[2]? = some ⟨.addMember "c" "a" "y" .member,
      .ret (.error ⟨.quotaExceeded, "Group is full"⟩)⟩ ∧
    Within .members "c" smallGroups (serve smallGroups fourUsers inTurn).state.db :=
  ⟨by decide, rfl, limit_kept smallGroups .members "c" (by decide) (by decide) inTurn (by decide)⟩

/-- Both count two members before either adds a third one, and the group has four. -/
theorem atOnce_exceeds :
    getMemberCount "c" (serve smallGroups fourUsers atOnce).state.db = 4 ∧
    ¬ Within .members "c" smallGroups (serve smallGroups fourUsers atOnce).state.db :=
  ⟨by decide, by decide⟩

end VoxServer.Caps
