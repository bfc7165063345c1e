import VoxServer.Interleaving.Sequential
import VoxServer.Server.System

/-! # Creating a conversation

A creation inserts the conversation and then one participant after the other, each
in a statement of its own. A request that fails its checks or cannot insert the
conversation leaves nothing behind. After that insertion, the first participant who
does not exist makes the creation fail, with what was inserted so far in place.
-/

namespace VoxServer.Creation

open Interleaving Prog

/-- A request to create a conversation. -/
inductive Request
  | dm (userA userB createdBy : UserId)
  | group (createdBy : UserId) (memberUserIds : List UserId)
  | channel (createdBy : UserId) (adminUserIds subscriberUserIds : List UserId)
  deriving DecidableEq, Repr

namespace Request

def code (cfg : ServerConfig) (uuid : String) : Request → ServerProg (Result ConversationId)
  | dm a b c => ConversationService.createDm a b c uuid
  | group c ms => ConversationService.createGroup cfg c ms uuid
  | channel c as ss => ConversationService.createChannel cfg c as ss uuid

/-- The checks of the arguments that come before the first statement. -/
def checked (cfg : ServerConfig) : Request → Bool
  | dm a b c => c = a ∨ c = b
  | group c ms =>
    let members := ConversationService.sortUnique ms
    2 ≤ members.length ∧ c ∈ members ∧ members.length ≤ cfg.maxGroupSize
  | channel c as ss =>
    as ≠ [] ∧ c ∈ as ∧ as.Nodup ∧ (as ++ ss).dedup.length ≤ cfg.maxChannelSize

def createdBy : Request → UserId
  | dm _ _ c => c
  | group c _ => c
  | channel c _ _ => c

def users : Request → List UserId
  | dm a b _ => [a, b]
  | group _ ms => ms
  | channel _ as ss => as ++ ss

end Request

def Exists (u : UserId) (db : Database) : Prop := ∃ r ∈ db.users, r.userId = u

instance (u : UserId) (db : Database) : Decidable (Exists u db) :=
  inferInstanceAs (Decidable (∃ r ∈ db.users, _))

/-- The tables of conversations and who takes part in them are the same. -/
structure Untouched (db db' : Database) : Prop where
  conversations : db'.conversations = db.conversations
  members : db'.conversationMembers = db.conversationMembers
  subscriptions : db'.channelSubscriptions = db.channelSubscriptions

theorem Untouched.rfl {db : Database} : Untouched db db := ⟨.refl _, .refl _, .refl _⟩

/-- An error means that conversations and participants are as they were. -/
def Clean (db : Database) (r : Result ConversationId) (s' : Server) : Prop :=
  ∀ e, r = .error e → Untouched db s'.db

/-- Nothing goes wrong after the conversation is inserted, or it is not inserted at all. -/
def Request.Sound (cfg : ServerConfig) (uuid : String) (request : Request) (db : Database) : Prop :=
  ¬ request.checked cfg ∨ ¬ Exists request.createdBy db ∨
    (∃ c ∈ db.conversations, c.conversationId = uuid) ∨ ∀ u ∈ request.users, Exists u db

instance (cfg : ServerConfig) (uuid : String) (request : Request) (db : Database) :
    Decidable (request.Sound cfg uuid db) :=
  inferInstanceAs (Decidable (_ ∨ _ ∨ _ ∨ _))

/-- The conversation is inserted, and the users are still those of `db₀`. -/
structure Open (c : ConversationId) (db₀ db : Database) : Prop where
  valid : db.Valid
  conversation : ∃ r ∈ db.conversations, r.conversationId = c
  users : db.users = db₀.users

section Loops

variable (cfg : ServerConfig) {c : ConversationId} {db₀ : Database} {s : Server}

theorem open_createConversation {conv : ConversationRecord} (hv : s.db.Valid)
    (he : ConversationRepository.createConversation conv s.db =
      (.ok (), { s.db with conversations := s.db.conversations ++ [conv] })) :
    (Call.exec cfg (.conversations (.createConversation conv)) s).1 = .ok () ∧
      Open conv.conversationId s.db
        (Call.exec cfg (.conversations (.createConversation conv)) s).2.db := by
  have hvalid := Call.exec_valid cfg (.conversations (.createConversation conv)) hv
  simp only [Call.exec, ConversationCall.exec, he, Call.onDb] at hvalid ⊢
  exact ⟨trivial, hvalid, ⟨conv, List.mem_append_right _ (.head _), rfl⟩, rfl⟩

theorem Open.exec (a : ConversationCall) (h : Open c db₀ s.db) :
    Open c db₀ (Call.exec cfg (.conversations a) s).2.db := by
  refine ⟨Call.exec_valid cfg _ h.valid, ?_, ?_⟩
  · obtain ⟨r, hr, hid⟩ := h.conversation
    obtain ⟨r', hr', hid', -⟩ := Call.exec_keeps_conversation cfg hr
    exact ⟨r', hr', hid'.trans hid⟩
  · rw [Call.exec_users cfg (by simp) (by simp [Call.isAdmin]), h.users]

theorem Open.addMember_ok_iff (h : Open c db₀ s.db) (u : UserId) (role : MemberRole)
    (now : Timestamp) :
    (Call.exec cfg (.conversations (.addMember c u role now)) s).1 = .ok () ↔ Exists u db₀ := by
  refine (ConversationRepository.addMember_ok_iff h.valid h.conversation role now).trans ?_
  rw [h.users]
  exact Iff.rfl

theorem Open.subscribe_ok_iff (h : Open c db₀ s.db) (u : UserId) (now : Timestamp) :
    (Call.exec cfg (.conversations (.subscribe c u now)) s).1 = .ok () ↔ Exists u db₀ := by
  refine (ConversationRepository.subscribe_ok_iff h.valid h.conversation now).trans ?_
  rw [h.users]
  exact Iff.rfl

/-- How a loop over the users ends: it succeeds if all of them exist. -/
def Added (c : ConversationId) (db₀ : Database) (us : List UserId) (r : VoidResult) (s' : Server) :
    Prop := Open c db₀ s'.db ∧ (r = .ok () ↔ ∀ u ∈ us, Exists u db₀)

theorem added_nil (h : Open c db₀ s.db) : Added c db₀ [] (.ok ()) s := ⟨h, by simp⟩

theorem added_error {u : UserId} {us : List UserId} {e : Error} (h : Open c db₀ s.db)
    (hu : ¬ Exists u db₀) : Added c db₀ (u :: us) (.error e) s :=
  ⟨h, by simp [hu]⟩

theorem Added.cons {u : UserId} {us : List UserId} {r : VoidResult} (h : Added c db₀ us r s)
    (hu : Exists u db₀) : Added c db₀ (u :: us) r s :=
  ⟨h.1, by simp [hu, h.2]⟩

theorem ends_addMembers (role : UserId → MemberRole) (now : Timestamp) (us : List UserId)
    (h : Open c db₀ s.db) : (ConversationService.addMembers c role now us).Ends (Call.exec cfg)
      (Added c db₀ us) s := by
  induction us generalizing s with
  | nil => exact added_nil h
  | cons u us ih =>
    refine ends_perform_bind.mpr ?_
    have hiff := h.addMember_ok_iff cfg u (role u) now
    split
    · rename_i e he
      exact added_error (h.exec cfg _) fun hu => by simp [hiff.mpr hu] at he
    · rename_i he
      exact (ih (h.exec cfg _)).mono fun r s' ha => ha.cons (hiff.mp he)

theorem ends_addAdmins (createdBy : UserId) (now : Timestamp) (us : List UserId)
    (h : Open c db₀ s.db) : (ConversationService.addAdmins c createdBy now us).Ends (Call.exec cfg)
      (Added c db₀ us) s := by
  induction us generalizing s with
  | nil => exact added_nil h
  | cons u us ih =>
    unfold ConversationService.addAdmins
    generalize (if u = createdBy then MemberRole.owner else .admin) = role
    refine ends_perform_bind.mpr ?_
    have hiff := h.addMember_ok_iff cfg u role now
    split
    · rename_i e he
      exact added_error (h.exec cfg _) fun hu => by simp [hiff.mpr hu] at he
    · rename_i he
      have h₁ := h.exec cfg (.addMember c u role now)
      generalize (Call.exec cfg (.conversations (.addMember c u role now)) s).2 = s₁ at h₁ ⊢
      refine ends_perform_bind.mpr ?_
      have hiff₁ := h₁.subscribe_ok_iff cfg u now
      split
      · rename_i e he
        exact added_error (h₁.exec cfg _) fun hu => by simp [hiff₁.mpr hu] at he
      · exact (ih (h₁.exec cfg _)).mono fun r s' ha => ha.cons (hiff.mp he)

theorem ends_addSubscribers (now : Timestamp) (us : List UserId) (h : Open c db₀ s.db) :
    (ConversationService.addSubscribers c now us).Ends (Call.exec cfg) (Added c db₀ us) s := by
  induction us generalizing s with
  | nil => exact added_nil h
  | cons u us ih =>
    refine ends_perform_bind.mpr ?_
    have hiff := h.subscribe_ok_iff cfg u now
    split
    · rename_i e he
      exact added_error (h.exec cfg _) fun hu => by simp [hiff.mpr hu] at he
    · rename_i he
      exact (ih (h.exec cfg _)).mono fun r s' ha => ha.cons (hiff.mp he)

end Loops

section Requests

variable {cfg : ServerConfig} {uuid : String} {c : UserId} {s : Server} {P : Prop}

theorem Added.clean_iff {us : List UserId} {r : VoidResult} {s' : Server}
    (h : Added uuid s.db us r s') (hnew : ∀ c ∈ s.db.conversations, c.conversationId ≠ uuid)
    {r' : Result ConversationId} (hr : (∃ id, r' = .ok id) ↔ r = .ok ())
    (hP : (∀ u ∈ us, Exists u s.db) ↔ P) : Clean s.db r' s' ↔ P := by
  rw [← hP, ← h.2, ← hr]
  constructor
  · intro hclean
    cases r' with
    | ok id => exact ⟨id, rfl⟩
    | error e =>
      obtain ⟨conv, hconv, hid⟩ := h.1.conversation
      rw [(hclean e rfl).conversations] at hconv
      exact absurd hid (hnew conv hconv)
  · rintro ⟨id, rfl⟩ e he
    cases he

theorem ends_create (hv : s.db.Valid) (conv : ConversationRecord)
    {f : VoidResult → ServerProg (Result ConversationId)}
    (herr : ∀ e, f (.error e) = .ret (.error e))
    (hok : ∀ s', Open conv.conversationId s.db s'.db →
      (∀ c ∈ s.db.conversations, c.conversationId ≠ conv.conversationId) →
      (f (.ok ())).Ends (Call.exec cfg) (fun r s' => Clean s.db r s' ↔ P) s') :
    (ask (.conversations (.createConversation conv)) >>= f).Ends (Call.exec cfg)
      (fun r s' => Clean s.db r s' ↔ ¬ Exists conv.createdBy s.db ∨
        (∃ c ∈ s.db.conversations, c.conversationId = conv.conversationId) ∨ P) s := by
  refine ends_perform_bind.mpr ?_
  rcases ConversationRepository.createConversation_cases conv s.db with
    ⟨hwhy, e, he⟩ | ⟨hnew, hu, he⟩
  · simp only [Call.exec, ConversationCall.exec, he, Call.onDb, herr]
    refine iff_of_true (fun _ _ => .rfl) ?_
    rcases hwhy with h | h
    · exact .inr (.inl h)
    · exact .inl h
  · obtain ⟨hr, hopen⟩ := open_createConversation cfg hv he
    rw [hr]
    refine (hok _ hopen hnew).mono fun r s' h => h.trans ?_
    have hnot : ¬ ∃ c ∈ s.db.conversations, c.conversationId = conv.conversationId := by
      rintro ⟨c, hc, hid⟩
      exact hnew c hc hid
    have hu' : Exists conv.createdBy s.db := hu
    rw [or_iff_right hnot, or_iff_right (not_not.mpr hu')]

theorem ends_createDm (hv : s.db.Valid) (a b : UserId) :
    (ConversationService.createDm a b c uuid).Ends (Call.exec cfg)
      (fun r s' => Clean s.db r s' ↔ (Request.dm a b c).Sound cfg uuid s.db) s := by
  unfold ConversationService.createDm
  split
  · rename_i hcheck
    exact iff_of_true (fun _ _ => .rfl) (.inl (by simpa [Request.checked] using hcheck))
  rename_i hcheck
  have hcheck' : (Request.dm a b c).checked cfg := by
    simp only [Request.checked, decide_eq_true_eq]
    tauto
  refine ends_perform_bind.mpr ((ends_create (P := ∀ u ∈ [a, b], Exists u s.db) hv _ (fun _ => rfl)
    fun s' hopen hnew => ?_).mono fun r s' h => h.trans (or_iff_right (not_not.mpr hcheck')).symm)
  refine Ends.bind ((ends_addMembers cfg _ _ _ hopen).mono ?_)
  rintro r s₁ h
  have hP : (∀ u ∈ if a = b then [a] else [if c = a then a else b,
      if (if c = a then a else b) = a then b else a], Exists u s.db) ↔
      ∀ u ∈ [a, b], Exists u s.db := by
    grind
  cases r with
  | error e => exact h.clean_iff hnew (by simp) hP
  | ok _ => exact h.clean_iff hnew (by simp) hP

theorem ends_createGroup (hv : s.db.Valid) (ms : List UserId) :
    (ConversationService.createGroup cfg c ms uuid).Ends (Call.exec cfg)
      (fun r s' => Clean s.db r s' ↔ (Request.group c ms).Sound cfg uuid s.db) s := by
  unfold ConversationService.createGroup
  dsimp only
  split
  · rename_i h₁
    exact iff_of_true (fun _ _ => .rfl) (.inl (by simp [Request.checked]; omega))
  split
  · rename_i h₁ h₂
    exact iff_of_true (fun _ _ => .rfl) (.inl (by simp [Request.checked, h₂]))
  split
  · rename_i h₁ h₂ h₃
    exact iff_of_true (fun _ _ => .rfl) (.inl (by simp [Request.checked]; omega))
  rename_i h₁ h₂ h₃
  have hcheck : (Request.group c ms).checked cfg :=
    decide_eq_true ⟨not_lt.mp h₁, not_not.mp h₂, not_lt.mp h₃⟩
  refine ends_perform_bind.mpr ((ends_create (P := ∀ u ∈ ms, Exists u s.db) hv _ (fun _ => rfl)
    fun s' hopen hnew => ?_).mono fun r s' h => h.trans (or_iff_right (not_not.mpr hcheck)).symm)
  refine Ends.bind ((ends_addMembers cfg _ _ _ hopen).mono ?_)
  rintro r s₁ h
  have hP : (∀ u ∈ ConversationService.sortUnique ms, Exists u s.db) ↔ ∀ u ∈ ms, Exists u s.db := by
    simp only [ConversationService.mem_sortUnique]
  cases r with
  | error e => exact h.clean_iff hnew (by simp) hP
  | ok _ => exact h.clean_iff hnew (by simp) hP

theorem ends_createChannel (hv : s.db.Valid) (as ss : List UserId) :
    (ConversationService.createChannel cfg c as ss uuid).Ends (Call.exec cfg)
      (fun r s' => Clean s.db r s' ↔ (Request.channel c as ss).Sound cfg uuid s.db) s := by
  unfold ConversationService.createChannel
  split
  · rename_i h₁
    exact iff_of_true (fun _ _ => .rfl) (.inl (by simp [Request.checked, h₁]))
  split
  · rename_i h₁ h₂
    exact iff_of_true (fun _ _ => .rfl) (.inl (by simp [Request.checked, h₂]))
  split
  · rename_i h₁ h₂ h₃
    have hdup := ConversationService.countAdmins_eq_none_iff.mp h₃
    exact iff_of_true (fun _ _ => .rfl) (.inl (by simp [Request.checked, hdup]))
  rename_i h₁ h₂ _ seen n h₃
  obtain ⟨hnodup, hcount⟩ := ConversationService.countSubscribers_of_countAdmins h₃ ss
  rw [hcount, List.card_toFinset]
  split
  · rename_i h₄
    exact iff_of_true (fun _ _ => .rfl) (.inl (by simp [Request.checked]; intros; omega))
  rename_i h₄
  have hcheck : (Request.channel c as ss).checked cfg :=
    decide_eq_true ⟨h₁, not_not.mp h₂, hnodup, not_lt.mp h₄⟩
  refine ends_perform_bind.mpr ((ends_create (P := ∀ u ∈ as ++ ss, Exists u s.db) hv _
    (fun _ => rfl) fun s' hopen hnew => ?_).mono fun r s' h =>
      h.trans (or_iff_right (not_not.mpr hcheck)).symm)
  refine Ends.bind ((ends_addAdmins cfg _ _ _ hopen).mono ?_)
  rintro r s₁ h
  cases r with
  | error e =>
    have has : ¬ ∀ u ∈ as, Exists u s.db := by simp [← h.2]
    refine h.clean_iff hnew (by simp) (iff_of_false has fun hP => has fun u hu => ?_)
    exact hP u (List.mem_append_left _ hu)
  | ok _ =>
    have has : ∀ u ∈ as, Exists u s.db := h.2.mp rfl
    refine Ends.bind ((ends_addSubscribers cfg _ _ h.1).mono ?_)
    rintro r s₂ h'
    have hP : (∀ u ∈ ss.filter (· ∉ as), Exists u s.db) ↔ ∀ u ∈ as ++ ss, Exists u s.db := by
      simp only [List.mem_filter, List.mem_append, decide_eq_true_eq]
      grind
    cases r with
    | error e => exact h'.clean_iff hnew (by simp) hP
    | ok _ => exact h'.clean_iff hnew (by simp) hP

end Requests

/-- In every state that is reached, a failed creation leaves the conversations and who takes part
in them as they were exactly if its checks fail, or its creator does not exist, or its id is in use,
or all the users that are to take part exist. -/
theorem creation_all_or_nothing_iff (cfg : ServerConfig) {init : Server} (acts : List Act)
    (hv : init.db.Valid) (uuid : String) (request : Request) :
    (∀ e, ((request.code cfg uuid).run (Call.exec cfg) (serve cfg init acts).state).1 = .error e →
      Untouched (serve cfg init acts).state.db
        ((request.code cfg uuid).run (Call.exec cfg) (serve cfg init acts).state).2.db) ↔
    ¬ request.checked cfg ∨ ¬ Exists request.createdBy (serve cfg init acts).state.db ∨
      (∃ c ∈ (serve cfg init acts).state.db.conversations, c.conversationId = uuid) ∨
      ∀ u ∈ request.users, Exists u (serve cfg init acts).state.db := by
  have hs := (serve_valid cfg hv acts).1
  cases request with
  | dm a b c => exact ends_createDm hs a b
  | group c ms => exact ends_createGroup hs ms
  | channel c as ss => exact ends_createChannel hs as ss

/-- A conversation created by a user who does not exist fails and leaves nothing. -/
theorem dm_of_unknown_creator_untouched :
    (((Request.dm "b" "b" "b").code default "n").run (Call.exec default)
      (serve default {} registerAlice).state).1 =
        .error ⟨.alreadyExists, "Conversation already exists"⟩ ∧
    Untouched (serve default {} registerAlice).state.db
      (((Request.dm "b" "b" "b").code default "n").run (Call.exec default)
        (serve default {} registerAlice).state).2.db := by
  refine ⟨rfl, ?_⟩
  exact (creation_all_or_nothing_iff default registerAlice (by decide) "n" (.dm "b" "b" "b")).mpr
    (.inr (.inl (by decide))) _ rfl

/-- A conversation with a user who does not exist fails, but is there afterwards. -/
theorem dm_with_unknown_user_left :
    (((Request.dm "a" "b" "a").code default "n").run (Call.exec default)
      (serve default {} registerAlice).state).1 =
        .error ⟨.internal, "FOREIGN KEY constraint failed"⟩ ∧
    ¬ Untouched (serve default {} registerAlice).state.db
      (((Request.dm "a" "b" "a").code default "n").run (Call.exec default)
        (serve default {} registerAlice).state).2.db := by
  refine ⟨rfl, fun h => absurd h.conversations ?_⟩
  decide

end VoxServer.Creation
