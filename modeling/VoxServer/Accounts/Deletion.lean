import VoxServer.Interleaving.Sequential
import VoxServer.Server.System

/-! # Deleting an account

The transaction deletes what refers to the user, table by table. It leaves the
conversations that the user created and the sync records, so it fails, and changes
nothing, for a user who has any; for every other user it succeeds.
-/

namespace VoxServer.Accounts

open Interleaving Prog Table

/-- No row of any table mentions the user. -/
structure Gone (u : UserId) (db : Database) : Prop where
  users : ∀ r ∈ db.users, r.userId ≠ u
  devices : ∀ r ∈ db.devices, r.userId ≠ u
  prekeys : ∀ r ∈ db.oneTimePrekeys, r.userId ≠ u
  sessions : ∀ r ∈ db.sessions, r.userId ≠ u
  conversations : ∀ r ∈ db.conversations, r.createdBy ≠ u
  members : ∀ r ∈ db.conversationMembers, r.userId ≠ u
  subscriptions : ∀ r ∈ db.channelSubscriptions, r.userId ≠ u
  envelopes : ∀ r ∈ db.encryptedEnvelopes, r.senderUserId ≠ u
  deliveries : ∀ r ∈ db.deliveryState, r.targetUserId ≠ u
  attachments : ∀ r ∈ db.attachmentMetadata, r.userId ≠ u
  syncRecords : ∀ r ∈ db.syncRecords, r.userId ≠ u

def sentBy (u : UserId) (db : Database) (e : EnvelopeId) : Prop :=
  ∃ r ∈ db.encryptedEnvelopes, r.envelopeId = e ∧ r.senderUserId = u

instance (u : UserId) (db : Database) (e : EnvelopeId) : Decidable (sentBy u db e) :=
  inferInstanceAs (Decidable (∃ r ∈ db.encryptedEnvelopes, _))

/-- Every table has the rows, in their order, that mention neither the user nor an envelope of
theirs, and no others. -/
structure Remains (u : UserId) (db db' : Database) : Prop where
  users : db'.users = db.users.filter (·.userId ≠ u)
  devices : db'.devices = db.devices.filter (·.userId ≠ u)
  prekeys : db'.oneTimePrekeys = db.oneTimePrekeys.filter (·.userId ≠ u)
  sessions : db'.sessions = db.sessions.filter (·.userId ≠ u)
  conversations : db'.conversations = db.conversations.filter (·.createdBy ≠ u)
  members : db'.conversationMembers = db.conversationMembers.filter (·.userId ≠ u)
  subscriptions : db'.channelSubscriptions = db.channelSubscriptions.filter (·.userId ≠ u)
  envelopes : db'.encryptedEnvelopes = db.encryptedEnvelopes.filter (·.senderUserId ≠ u)
  deliveries : db'.deliveryState =
    db.deliveryState.filter fun r => r.targetUserId ≠ u ∧ ¬ sentBy u db r.envelopeId
  attachments : db'.attachmentMetadata = db.attachmentMetadata.filter (·.userId ≠ u)
  syncRecords : db'.syncRecords = db.syncRecords.filter (·.userId ≠ u)

/-- Neither conversations that the user created nor sync records of theirs are left. -/
def Detached (u : UserId) (db : Database) : Prop :=
  (∀ c ∈ db.conversations, c.createdBy ≠ u) ∧ ∀ r ∈ db.syncRecords, r.userId ≠ u

instance (u : UserId) (db : Database) : Decidable (Detached u db) :=
  inferInstanceAs (Decidable (_ ∧ _))

section Transaction

variable {u : UserId} {db db' : Database}

theorem ne_of_references_users {ρ : Type} {fk : ρ → UserId} {rows : List ρ}
    (h : References fk UserRecord.userId rows (deleteWhere (·.userId = u) db.users)) :
    ∀ r ∈ rows, fk r ≠ u := by
  rintro r hr he
  obtain ⟨q, hq, hqe⟩ := h r hr
  exact (mem_deleteWhere.mp hq).2 (decide_eq_true (hqe.trans he))

theorem detached_of_ok (hv : db.Valid) (h : AdminService.deleteUserRows u db = .ok db') :
    Detached u db := by
  obtain ⟨rfl, hvalid⟩ := AdminService.deleteUserRows_ok h
  have hv' := hvalid hv
  exact ⟨ne_of_references_users hv'.conversations_user, ne_of_references_users hv'.sync_user⟩

theorem references_users {ρ : Type} {fk : ρ → UserId} {rows : List ρ}
    (h : References fk UserRecord.userId rows db.users) :
    References fk UserRecord.userId (deleteWhere (fk · = u) rows)
      (deleteWhere (·.userId = u) db.users) :=
  h.deleteWhere_both fun r _ x _ he hx => by simpa [he] using hx

theorem references_devices {ρ : Type} {fu : ρ → UserId} {fd : ρ → DeviceId} {rows : List ρ}
    (h : References (fun r => (fu r, fd r)) DeviceRecord.key rows db.devices) :
    References (fun r => (fu r, fd r)) DeviceRecord.key (deleteWhere (fu · = u) rows)
      (deleteWhere (·.userId = u) db.devices) :=
  h.deleteWhere_both fun r _ x _ he hx => by
    obtain ⟨hu, -⟩ := Prod.mk.inj he
    simpa [hu] using hx

theorem references_envelopes {rows : List DeliveryStateRecord}
    (h : References DeliveryStateRecord.envelopeId EnvelopeRecord.envelopeId rows
      db.encryptedEnvelopes) :
    References DeliveryStateRecord.envelopeId EnvelopeRecord.envelopeId
      (deleteWhere (·.envelopeId ∈
        (db.encryptedEnvelopes.filter (·.senderUserId = u)).map (·.envelopeId)) rows)
      (deleteWhere (·.senderUserId = u) db.encryptedEnvelopes) :=
  h.deleteWhere_both fun r _ x hx he hs => by
    simp only [List.mem_map, List.mem_filter, decide_eq_true_eq] at hs ⊢
    exact ⟨x, ⟨hx, hs⟩, he⟩

theorem references_of_ne {ρ : Type} {fk : ρ → UserId} {rows : List ρ}
    (h : References fk UserRecord.userId rows db.users) (hne : ∀ r ∈ rows, fk r ≠ u) :
    References fk UserRecord.userId rows (deleteWhere (·.userId = u) db.users) := by
  intro r hr
  obtain ⟨x, hx, he⟩ := h r hr
  refine ⟨x, mem_deleteWhere.mpr ⟨hx, ?_⟩, he⟩
  rw [decide_eq_true_eq, he]
  exact hne r hr

theorem ok_of_detached (hv : db.Valid) (h : Detached u db) :
    AdminService.deleteUserRows u db = .ok (AdminService.withoutUser u db) := by
  refine checkReferences_bind_ok.mpr ⟨references_envelopes hv.delivery_envelope.deleteWhere, ?_⟩
  refine checkReferences_bind_ok.mpr ⟨references_devices hv.prekeys_device, ?_⟩
  refine checkReferences_bind_ok.mpr ⟨references_devices hv.sessions_device, ?_⟩
  refine checkReferences_bind_ok.mpr ⟨references_devices hv.envelopes_sender, ?_⟩
  refine checkReferences_bind_ok.mpr ⟨(references_devices hv.delivery_device).deleteWhere, ?_⟩
  refine checkReferences_bind_ok.mpr ⟨references_users hv.devices_user, ?_⟩
  refine checkReferences_bind_ok.mpr ⟨references_users hv.sessions_user, ?_⟩
  refine checkReferences_bind_ok.mpr ⟨references_of_ne hv.conversations_user h.1, ?_⟩
  refine checkReferences_bind_ok.mpr ⟨references_users hv.members_user, ?_⟩
  refine checkReferences_bind_ok.mpr ⟨references_users hv.subscriptions_user, ?_⟩
  refine checkReferences_bind_ok.mpr ⟨references_users hv.attachments_user, ?_⟩
  exact checkReferences_bind_ok.mpr ⟨references_of_ne hv.sync_user h.2, rfl⟩

theorem gone_withoutUser (h : Detached u db) : Gone u (AdminService.withoutUser u db) := by
  refine ⟨?_, ?_, ?_, ?_, h.1, ?_, ?_, ?_, ?_, ?_, h.2⟩
  all_goals
    intro r hr
    first
    | exact fun he => (mem_deleteWhere.mp hr).2 (decide_eq_true he)
    | exact fun he => (mem_deleteWhere.mp (mem_deleteWhere.mp hr).1).2 (decide_eq_true he)

theorem deleteWhere_eq_filter {ρ : Type} (f : ρ → UserId) (rows : List ρ) :
    deleteWhere (f · = u) rows = rows.filter (f · ≠ u) :=
  List.filter_congr fun r _ => by simp

theorem filter_of_ne {ρ : Type} {f : ρ → UserId} {rows : List ρ} (h : ∀ r ∈ rows, f r ≠ u) :
    rows = rows.filter (f · ≠ u) :=
  (List.filter_eq_self.mpr fun r hr => decide_eq_true (h r hr)).symm

theorem remains_withoutUser (h : Detached u db) : Remains u db (AdminService.withoutUser u db) where
  users := deleteWhere_eq_filter UserRecord.userId _
  devices := deleteWhere_eq_filter DeviceRecord.userId _
  prekeys := deleteWhere_eq_filter PrekeyRow.userId _
  sessions := deleteWhere_eq_filter SessionRecord.userId _
  conversations := filter_of_ne h.1
  members := deleteWhere_eq_filter MemberRecord.userId _
  subscriptions := deleteWhere_eq_filter SubscriptionRow.userId _
  envelopes := deleteWhere_eq_filter EnvelopeRecord.senderUserId _
  deliveries := by
    simp only [AdminService.withoutUser, deleteWhere, List.filter_filter]
    refine List.filter_congr fun r _ => ?_
    rw [Bool.eq_iff_iff]
    simp only [Bool.and_eq_true, Bool.not_eq_true', decide_eq_false_iff_not, decide_eq_true_eq,
      List.mem_map, List.mem_filter, sentBy]
    grind
  attachments := deleteWhere_eq_filter AttachmentRecord.userId _
  syncRecords := filter_of_ne h.2

end Transaction

/-- A deletion succeeds for an existing user with nothing left behind, and then deletes what
mentions them; otherwise it changes nothing. -/
theorem deleteUser_cases (cfg : ServerConfig) (u : UserId) {s : Server} (hv : s.db.Valid) :
    ((∃ x ∈ s.db.users, x.userId = u) ∧ Detached u s.db ∧
      (Handlers.deleteUser u).run (Call.exec cfg) s =
        (.ok (), { s with db := AdminService.withoutUser u s.db })) ∨
    ((∃ x ∈ s.db.users, x.userId = u) → ¬ Detached u s.db) ∧
      ∃ e, (Handlers.deleteUser u).run (Call.exec cfg) s = (.error e, s) := by
  cases hf : UserRepository.findById u s.db with
  | none =>
    refine .inr ⟨?_, ⟨.notFound, "User not found"⟩, ?_⟩
    · rintro ⟨x, hx, hid⟩
      exact absurd (decide_eq_true hid) (List.find?_eq_none.mp hf x hx)
    · simp [Handlers.deleteUser, Call.exec, UserCall.exec, Call.onDb, hf]
  | some r =>
    have hrun : (Handlers.deleteUser u).run (Call.exec cfg) s =
        Call.exec cfg (.admin (.deleteUserRows u)) s := by
      simp [Handlers.deleteUser, Call.exec, UserCall.exec, Call.onDb, hf, perform]
    have hr : ∃ x ∈ s.db.users, x.userId = u :=
      ⟨r, List.mem_of_find?_eq_some hf, by simpa using List.find?_some hf⟩
    rw [hrun]
    by_cases hd : Detached u s.db
    · refine .inl ⟨hr, hd, ?_⟩
      simp [Call.exec, AdminCall.exec, ok_of_detached hv hd, Call.onDb]
    · refine .inr ⟨fun _ => hd, ?_⟩
      cases hrows : AdminService.deleteUserRows u s.db with
      | ok db' => exact absurd (detached_of_ok hv hrows) hd
      | error e => exact ⟨e.toInternal, by simp [Call.exec, AdminCall.exec, hrows, Call.onDb]⟩

/-- In every state that is reached, an existing user can be deleted exactly if no conversation that
they created and no sync record of theirs exists. -/
theorem deleteUser_succeeds_iff (cfg : ServerConfig) {init : Server} (acts : List Act)
    (hv : init.db.Valid) (u : UserId)
    (hu : ∃ x ∈ (serve cfg init acts).state.db.users, x.userId = u) :
    ((Handlers.deleteUser u).run (Call.exec cfg) (serve cfg init acts).state).1 = .ok () ↔
      (∀ c ∈ (serve cfg init acts).state.db.conversations, c.createdBy ≠ u) ∧
        ∀ r ∈ (serve cfg init acts).state.db.syncRecords, r.userId ≠ u := by
  rcases deleteUser_cases cfg u (serve_valid cfg hv acts).1 with ⟨-, hd, hrun⟩ | ⟨hd, e, hrun⟩
  · rw [hrun]
    exact iff_of_true rfl hd
  · rw [hrun]
    exact iff_of_false (by simp) (hd hu)

theorem deleteAlice_succeeds : ((Handlers.deleteUser "a").run (Call.exec default)
    (serve default {} registerAlice).state).1 = .ok () :=
  (deleteUser_succeeds_iff default registerAlice (by decide) "a" (by decide)).mpr
    ⟨by decide, by decide⟩

def registerAndCreate : List Act :=
  registerAlice ++ .spawn (.createDm "a" "a" "a" "c") :: List.replicate 3 (.run 1)

/-- A user who has created a conversation exists and cannot be deleted. -/
theorem deleteCreator_fails :
    (∃ x ∈ (serve default {} registerAndCreate).state.db.users, x.userId = "a") ∧
    ((Handlers.deleteUser "a").run (Call.exec default)
      (serve default {} registerAndCreate).state).1 =
        .error ⟨.internal, "FOREIGN KEY constraint failed"⟩ :=
  ⟨by decide, rfl⟩

/-- A deletion that succeeds leaves no mention of the user, leaves every row that mentions neither
the user nor an envelope of theirs, and keeps all keys and references; one that fails changes
nothing. -/
theorem deletion_complete_and_contained (cfg : ServerConfig) (u : UserId) {s : Server}
    (hv : s.db.Valid) :
    (((Handlers.deleteUser u).run (Call.exec cfg) s).1 = .ok () →
      Gone u ((Handlers.deleteUser u).run (Call.exec cfg) s).2.db ∧
      Remains u s.db ((Handlers.deleteUser u).run (Call.exec cfg) s).2.db ∧
      ((Handlers.deleteUser u).run (Call.exec cfg) s).2.db.Valid) ∧
    ∀ e, ((Handlers.deleteUser u).run (Call.exec cfg) s).1 = .error e →
      ((Handlers.deleteUser u).run (Call.exec cfg) s).2.db = s.db := by
  rcases deleteUser_cases cfg u hv with ⟨-, hd, hrun⟩ | ⟨-, e, hrun⟩
  · rw [hrun]
    refine ⟨fun _ => ⟨gone_withoutUser hd, remains_withoutUser hd, ?_⟩, fun e he => by cases he⟩
    exact (AdminService.deleteUserRows_ok (ok_of_detached hv hd)).2 hv
  · rw [hrun]
    exact ⟨fun h => absurd h (by simp), fun _ _ => rfl⟩

/-- A server without queues in memory, so that deliveries are stored. -/
def offline : ServerConfig := { (default : ServerConfig) with maxQueueDepthPerDevice := 0 }

def groupTalk : List (Op ⊕ Timestamp) :=
  [joins "a", joins "b", joins "c", .inl (.createGroup "b" ["b", "a", "c"] "g"),
    .inl (.sendEnvelope ⟨"b", "d", "g", "x", "e", 0, none⟩ ""),
    .inl (.sendEnvelope ⟨"a", "d", "g", "y", "f", 0, none⟩ "")]
where
  joins (u : UserId) : Op ⊕ Timestamp :=
    .inl (.register ⟨u, "p", "d", "", "k", "k", "k", "w", "w", "w"⟩ (some "s") u "d"
      ⟨u ++ "t", u ++ "r", u ++ "s"⟩)

def beforeDeletion : Server := (voxServer offline).after {} groupTalk

/-- Of the others the group, the envelope and one delivery of it are left. -/
theorem deleteAlice_complete :
    beforeDeletion.db.deliveryState.length = 4 ∧
    ((Handlers.deleteUser "a").run (Call.exec offline) beforeDeletion).2.db.deliveryState.map
      (fun r => (r.envelopeId, r.targetUserId)) = [("e", "c")] ∧
    Gone "a" ((Handlers.deleteUser "a").run (Call.exec offline) beforeDeletion).2.db ∧
    Remains "a" beforeDeletion.db
      ((Handlers.deleteUser "a").run (Call.exec offline) beforeDeletion).2.db ∧
    ((Handlers.deleteUser "a").run (Call.exec offline) beforeDeletion).2.db.Valid :=
  ⟨by decide, by decide, (deletion_complete_and_contained offline "a" (by decide)).1 rfl⟩

end VoxServer.Accounts
