import VoxServer.Conversations.Requested
import VoxServer.Net.HttpServer

/-! # The names in lists of members

The list of members is answered with the names from one batched lookup, which takes the
first hundred ids and leaves the others out. So a list carries all names exactly if the
accounts behind its hundredth entry are disabled.
-/

namespace VoxServer.MemberNames

open Interleaving Prog Table ConversationRepository Http

/-- The account of the user is disabled or missing. -/
def Hidden (db : Database) (u : UserId) : Prop :=
  ∀ r ∈ db.users, r.userId = u → r.disabledAt.isSome

instance (db : Database) (u : UserId) : Decidable (Hidden db u) :=
  inferInstanceAs (Decidable (∀ r ∈ db.users, _))

/-- An entry of a list has the stored name of an account that is not disabled, and null only for an
account that is hidden. -/
def Named (db : Database) (entry : Json) : Prop :=
  ∃ u name role, entry = .obj [("user_id", .str u), ("username", name), ("role", role)] ∧
    (∀ r ∈ db.users, r.userId = u → r.disabledAt = none → name = .str r.username) ∧
    (name = .null → Hidden db u)

/-- The request is answered, and so are all entries of the lists in the answer. -/
def AllNamed (cfg : ServerConfig) (draws : Draws) (sess : SessionRecord) (req : HttpRequest)
    (s : Server) : Prop :=
  ∃ fields, (handleAuthenticated cfg draws sess req).run (Call.exec cfg) s =
      (jsonRes req.version 200 (.obj fields), s) ∧
    ∀ key entries, (key, .arr entries) ∈ fields → ∀ entry ∈ entries, Named s.db entry

def seesSubscribers (conv : ConversationId) (u : UserId) (db : Database) : Bool :=
  ((findById conv db).any fun r => r.type = .channel) &&
    (getMember conv u db).any fun m => m.role = .owner ∨ m.role = .admin

/-- The users whom the answer lists, in its order. -/
def listed (conv : ConversationId) (u : UserId) (db : Database) : List UserId :=
  let members := (getMembers conv db).map (·.userId)
  if seesSubscribers conv u db then members ++ (getSubscribers conv db).filter (· ∉ members)
  else members

section Lookup

variable {db : Database} {u : UserId}

def storedName (u : UserId) (db : Database) : Option String :=
  (db.users.find? fun r => r.userId = u ∧ r.disabledAt = none).map (·.username)

theorem storedName_eq_none : storedName u db = none ↔ Hidden db u := by
  simp only [storedName, Option.map_eq_none_iff, List.find?_eq_none, decide_eq_true_eq, not_and]
  refine forall₃_congr fun r _ _ => ?_
  exact Option.isSome_iff_ne_none.symm

theorem storedName_of_mem (hv : db.Valid) {r : UserRecord} (hr : r ∈ db.users)
    (hu : r.userId = u) (hmark : r.disabledAt = none) : storedName u db = some r.username := by
  have hfind : db.users.find? (fun r => r.userId = u ∧ r.disabledAt = none) = some r := by
    refine hv.users_pk.find?_eq_some hr (by simp [hu, hmark]) fun r' _ h' => ?_
    exact (of_decide_eq_true h').1.trans hu.symm
  rw [storedName, hfind, Option.map_some]

theorem usernameMap_snoc (profiles : List UserPublicProfile) (p : UserPublicProfile) :
    usernameMapFromProfiles (profiles ++ [p]) =
      Function.update (usernameMapFromProfiles profiles) p.userId (some p.username) := by
  rw [usernameMapFromProfiles, List.foldl_append]
  rfl

theorem usernameMap_batch (ids : List UserId) :
    usernameMapFromProfiles (ids.filterMap fun id =>
      (db.users.find? fun r => r.userId = id ∧ r.disabledAt = none).map fun r =>
        ⟨r.userId, r.username⟩) u = if u ∈ ids then storedName u db else none := by
  induction ids using List.reverseRecOn with
  | nil => rfl
  | append_singleton ids id ih =>
    rw [List.filterMap_append]
    cases hfind : db.users.find? fun r => r.userId = id ∧ r.disabledAt = none with
    | none =>
      have hnone : storedName id db = none := by rw [storedName, hfind]; rfl
      simp only [List.filterMap_cons, hfind, Option.map_none, List.filterMap_nil, List.append_nil,
        ih, List.mem_append, List.mem_singleton]
      by_cases hu : u = id
      · simp [hu, hnone]
      · simp [hu]
    | some r =>
      obtain ⟨hid, -⟩ : r.userId = id ∧ r.disabledAt = none := by simpa using List.find?_some hfind
      have hsome : storedName id db = some r.username := by rw [storedName, hfind]; rfl
      simp only [List.filterMap_cons, hfind, Option.map_some, List.filterMap_nil,
        usernameMap_snoc, List.mem_append, List.mem_singleton]
      by_cases hu : u = id
      · simp [hu, hid, hsome]
      · rw [Function.update_of_ne (by rwa [hid]), ih]
        simp [hu]

theorem named_iff (hv : db.Valid) {batch : List UserId} {names : UserId → Option String}
    (hnames : names u = if u ∈ batch then storedName u db else none) (role : MemberRole) :
    Named db (memberJson names u role) ↔ (u ∉ batch → Hidden db u) := by
  constructor
  · rintro ⟨v, name, role', hentry, -, hnull⟩ hu
    simp only [memberJson, hnames, if_neg hu, strOrNull, Json.obj.injEq, List.cons.injEq,
      Prod.mk.injEq, Json.str.injEq, true_and] at hentry
    obtain ⟨rfl, rfl, -⟩ := hentry
    exact hnull rfl
  · intro h
    have hname : names u = storedName u db := by
      by_cases hu : u ∈ batch
      · rw [hnames, if_pos hu]
      · rw [hnames, if_neg hu, storedName_eq_none.mpr (h hu)]
    refine ⟨u, strOrNull (storedName u db), .str (roleName role), ?_, ?_, ?_⟩
    · rw [memberJson, hname]
    · intro r hr hid hmark
      rw [storedName_of_mem hv hr hid hmark]
      rfl
    · intro hnull
      apply storedName_eq_none.mp
      cases hstored : storedName u db with
      | none => rfl
      | some name =>
        rw [hstored] at hnull
        cases hnull

end Lookup

section Answers

variable {cfg : ServerConfig} {draws : Draws} {sess : SessionRecord} {req : HttpRequest}
  {conv : ConversationId} {s : Server}

def names (conv : ConversationId) (u : UserId) (db : Database) : UserId → Option String :=
  usernameMapFromProfiles (UserRepository.findPublicProfilesByIds (listed conv u db) db)

def memberEntries (conv : ConversationId) (u : UserId) (db : Database) : List Json :=
  (getMembers conv db).map fun m => memberJson (names conv u db) m.userId m.role

def subscriberEntries (conv : ConversationId) (u : UserId) (db : Database) : List Json :=
  ((getSubscribers conv db).filter (· ∉ (getMembers conv db).map (·.userId))).map fun v =>
    memberJson (names conv u db) v .member

def memberFields (crec : ConversationRecord) (conv : ConversationId) (u : UserId)
    (db : Database) : List (String × Json) :=
  if crec.type ≠ .channel then [("members", .arr (memberEntries conv u db))]
  else if seesSubscribers conv u db then
    [("admins", .arr (memberEntries conv u db)),
      ("subscribers", .arr (subscriberEntries conv u db))]
  else [("admins", .arr (memberEntries conv u db)), ("subscription_state", .str "subscribed"),
    ("member_count", .int (getSubscribers conv db).length)]

theorem listed_of_sees {u : UserId} (h : seesSubscribers conv u s.db) :
    listed conv u s.db = (getMembers conv s.db).map (·.userId) ++
      (getSubscribers conv s.db).filter (· ∉ (getMembers conv s.db).map (·.userId)) := by
  simp [listed, h]

theorem listed_of_not_sees {u : UserId} (h : ¬ seesSubscribers conv u s.db) :
    listed conv u s.db = (getMembers conv s.db).map (·.userId) := by
  simp [listed, h]

theorem not_sees_of_type {u : UserId} {crec : ConversationRecord}
    (hfind : findById conv s.db = some crec) (htype : crec.type ≠ .channel) :
    ¬ seesSubscribers conv u s.db := by
  simp [seesSubscribers, hfind, htype]

theorem run_getMembers (hmember : isUserInConversation conv sess.userId s.db)
    {crec : ConversationRecord} (hfind : findById conv s.db = some crec) :
    (Http.getMembers sess req conv).run (Call.exec cfg) s =
      (jsonRes req.version 200 (.obj ([("conversation_id", .str conv),
        ("membership_version", .int crec.membershipVersion)] ++
          memberFields crec conv sess.userId s.db)), s) := by
  unfold Http.getMembers
  simp only [ask, Prog.perform_bind, Prog.run_call, Call.exec, Call.onDb, ConversationCall.exec,
    hmember, hfind, Bool.not_true, Bool.false_eq_true, if_false]
  by_cases htype : crec.type = .channel
  · rw [if_pos htype]
    have hadmin : seesSubscribers conv sess.userId s.db =
        (getMember conv sess.userId s.db).any fun m => m.role = .owner ∨ m.role = .admin := by
      simp [seesSubscribers, hfind, htype]
    unfold channelMembers
    simp only [ask, Prog.perform_bind, Prog.call_bind, Prog.run_call, Call.exec, Call.onDb,
      ConversationCall.exec]
    by_cases hsees : seesSubscribers conv sess.userId s.db
    · have hlisted := listed_of_sees hsees
      rw [hadmin] at hsees
      simp only [memberFields, htype, hadmin, hsees, ne_eq, not_true_eq_false, if_true, if_false,
        memberEntries, subscriberEntries, names, hlisted]
      rfl
    · have hlisted := listed_of_not_sees hsees
      rw [hadmin] at hsees
      simp only [memberFields, htype, hadmin, hsees, ne_eq, not_true_eq_false, if_false,
        memberEntries, names, hlisted]
      rfl
  · rw [if_neg htype]
    have hlisted := listed_of_not_sees (not_sees_of_type (u := sess.userId) hfind htype)
    simp only [memberFields, htype, ne_eq, not_false_eq_true, if_true, memberEntries, names,
      hlisted]
    rfl

theorem nodup_listed (hv : s.db.Valid) (u : UserId) : (listed conv u s.db).Nodup := by
  have hmembers := nodup_getMembers hv conv
  unfold listed
  dsimp only
  split
  · refine hmembers.append ((nodup_getSubscribers hv conv).filter _) ?_
    intro v hv hv'
    exact absurd hv (of_decide_eq_true (List.mem_filter.mp hv').2)
  · exact hmembers

theorem names_eq (hv : s.db.Valid) (u v : UserId) : names conv u s.db v =
    if v ∈ (listed conv u s.db).take UserRepository.kMaxUserIdsInBatch then storedName v s.db
    else none := by
  rw [names, UserRepository.findPublicProfilesByIds, eraseDups_eq_self (nodup_listed hv u)]
  exact usernameMap_batch _

theorem forall_entries_iff {crec : ConversationRecord} {u : UserId} {P : Json → Prop}
    (hfind : findById conv s.db = some crec) :
    (∀ key entries, (key, .arr entries) ∈ memberFields crec conv u s.db →
      ∀ entry ∈ entries, P entry) ↔
    (∀ entry ∈ memberEntries conv u s.db, P entry) ∧
      (seesSubscribers conv u s.db → ∀ entry ∈ subscriberEntries conv u s.db, P entry) := by
  by_cases htype : crec.type = .channel
  · by_cases hsees : seesSubscribers conv u s.db
    · simp [memberFields, htype, hsees, or_imp, forall_and]
    · simp [memberFields, htype, hsees]
  · have hsees := not_sees_of_type (u := u) hfind htype
    simp [memberFields, htype, hsees]

theorem entries_named_iff (hv : s.db.Valid) {crec : ConversationRecord} {u : UserId}
    (hfind : findById conv s.db = some crec) :
    (∀ key entries, (key, .arr entries) ∈ memberFields crec conv u s.db →
      ∀ entry ∈ entries, Named s.db entry) ↔
    ∀ v ∈ listed conv u s.db, v ∉ (listed conv u s.db).take UserRepository.kMaxUserIdsInBatch →
      Hidden s.db v := by
  rw [forall_entries_iff hfind]
  simp only [memberEntries, subscriberEntries, List.forall_mem_map, named_iff hv (names_eq hv u _)]
  by_cases hsees : seesSubscribers conv u s.db
  · rw [listed_of_sees hsees, List.forall_mem_append]
    simp only [hsees, forall_const, List.forall_mem_map]
  · rw [listed_of_not_sees hsees]
    simp only [hsees, List.forall_mem_map, Bool.false_eq_true, false_imp_iff, and_true]

theorem forall_not_mem_take_iff {l : List UserId} (hl : l.Nodup) (n : ℕ) {P : UserId → Prop} :
    (∀ v ∈ l, v ∉ l.take n → P v) ↔ ∀ v ∈ l.drop n, P v := by
  constructor
  · intro h v hv
    refine h v (List.mem_of_mem_drop hv) fun hv' => ?_
    exact List.disjoint_take_drop hl le_rfl hv' hv
  · intro h v hv hv'
    rw [← List.take_append_drop n l, List.mem_append] at hv
    exact h v (hv.resolve_left hv')

theorem allNamed_iff_hidden (hv : s.db.Valid) (hverb : req.method = .get)
    (hroute : getRoute (pathOnly req.target) = some (.members conv))
    (hmember : isUserInConversation conv sess.userId s.db) :
    AllNamed cfg draws sess req s ↔
      ∀ v ∈ (listed conv sess.userId s.db).drop UserRepository.kMaxUserIdsInBatch,
        Hidden s.db v := by
  cases hfind : findById conv s.db with
  | none => simp [isUserInConversation, hfind] at hmember
  | some crec =>
    have hrun : (handleAuthenticated cfg draws sess req).run (Call.exec cfg) s =
        (Http.getMembers sess req conv).run (Call.exec cfg) s := by
      simp only [handleAuthenticated, handleGet, hverb, hroute]
    rw [run_getMembers hmember hfind] at hrun
    rw [← forall_not_mem_take_iff (nodup_listed hv sess.userId), ← entries_named_iff hv hfind]
    constructor
    · rintro ⟨fields, hfields, h⟩ key entries hmem
      rw [hrun] at hfields
      obtain rfl : _ = fields := by simpa [jsonRes] using hfields
      exact h key entries (List.mem_cons_of_mem _ (List.mem_cons_of_mem _ hmem))
    · intro h
      refine ⟨_, hrun, fun key entries hmem => ?_⟩
      rcases List.mem_append.mp hmem with hmem | hmem
      · simp at hmem
      · exact h key entries hmem

end Answers

/-- In every state that keeps the constraints of the schema, as all states that are reached do, the
list of members that a participant asks for carries all names exactly if the accounts behind the
hundredth entry are disabled or missing. -/
theorem all_named_iff_rest_hidden (cfg : ServerConfig) (draws : Draws) (sess : SessionRecord)
    {s : Server} (hv : s.db.Valid) {req : HttpRequest} (conv : ConversationId)
    (hverb : req.method = .get) (hroute : getRoute (pathOnly req.target) = some (.members conv))
    (hmember : isUserInConversation conv sess.userId s.db) :
    AllNamed cfg draws sess req s ↔
      ∀ v ∈ (listed conv sess.userId s.db).drop UserRepository.kMaxUserIdsInBatch,
        Hidden s.db v :=
  allNamed_iff_hidden hv hverb hroute hmember

section Register

variable {cfg : ServerConfig} {s : Server}

theorem ends_register (request : RegisterRequest) {salt : Option String} {u d : String}
    {fresh : FreshTokens} {hashed : HashResult}
    (hhash : PasswordHasher.hash cfg salt request.passwordDerivedValue = .ok hashed)
    (hid : ∀ r ∈ s.db.users, r.userId ≠ u)
    (hname : ∀ r ∈ s.db.users, ¬ UserRepository.nocaseEq r.username request.username)
    (hlogin : ¬ (request.username = "" ∨ request.passwordDerivedValue = ""))
    (hbundle : ¬ (request.wrappedSyncKey = "" ∨ request.syncWrapSalt = "" ∨
      request.syncWrapParams = ""))
    (hkeys : ¬ (request.identityKeyPublic = "" ∨ request.signedPrekeyPublic = "" ∨
      request.signedPrekeySignature = "")) :
    (AuthService.register cfg request salt u d fresh).Ends (Call.exec cfg) (fun _ s' =>
      s'.db.conversations = s.db.conversations ∧ ∃ r, s'.db.users = s.db.users ++ [r] ∧
        r.userId = u ∧ r.username = request.username ∧ r.disabledAt = none) s := by
  have hfind : UserRepository.findByUsername request.username s.db = none :=
    List.find?_eq_none.mpr fun r hr he => hname r hr he
  unfold AuthService.register
  rw [if_neg hlogin, if_neg hbundle, if_neg hkeys, ends_perform_bind]
  simp only [Call.exec, Call.onDb, UserCall.exec, hfind, Option.isSome_none, Bool.false_eq_true,
    if_false, hhash]
  -- The user is created first, and what follows leaves users and conversations alone.
  refine ends_perform_bind.mpr (ends_perform_bind.mpr (Only.ends
    (P := fun c : Call => (∀ a, c ≠ .users a) ∧ (∀ a, c ≠ .conversations a) ∧ ¬ c.isAdmin)
    (I := fun s' : Server => s'.db.conversations = s.db.conversations ∧ ∃ r,
      s'.db.users = s.db.users ++ [r] ∧ r.userId = u ∧ r.username = request.username ∧
        r.disabledAt = none) ?_ ?_ ?_))
  · split
    · trivial
    refine only_ask_bind.mpr ⟨by simp [Call.isAdmin], fun res => ?_⟩
    split
    · trivial
    refine Only.bind (only_ask_bind.mpr ⟨by simp [Call.isAdmin], fun res => ?_⟩) fun res => ?_
    · split <;> trivial
    · split <;> trivial
  · rintro c s' ⟨hc, hc', ha⟩ ⟨hconv, r, husers, hr⟩
    rw [Call.exec_users cfg hc ha, Call.exec_conversations cfg hc']
    exact ⟨hconv, r, husers, hr⟩
  · simp only [Call.exec, Call.onDb, UserCall.exec]
    rw [UserRepository.createUser_eq_ok]
    · exact ⟨rfl, _, rfl, rfl, rfl, rfl⟩
    · exact hid
    · exact hname

end Register

section Large

/-- The name and the id of the `k`-th user. -/
def userName (k : ℕ) : String := String.ofList (List.replicate (k + 1) 'u')

def registerUser (k : ℕ) : Op :=
  .register ⟨userName k, "p", "d", "", "k", "k", "k", "w", "w", "w"⟩ (some "s") (userName k) "d"
    ⟨userName k, userName k, userName k⟩

def registrations (n : ℕ) : List (Op ⊕ Timestamp) :=
  (List.range n).map fun k => .inl (registerUser k)

structure Registered (n : ℕ) (db : Database) : Prop where
  users : db.users.map (fun r => (r.userId, r.username, r.disabledAt)) =
    (List.range n).map fun k => (userName k, userName k, none)
  conversations : db.conversations = []

theorem length_userName (k : ℕ) : (userName k).toList.length = k + 1 := by
  simp [userName]

theorem userName_inj {j k : ℕ} (h : userName j = userName k) : j = k := by
  have hlength := congrArg (·.toList.length) h
  simp only [length_userName] at hlength
  omega

theorem Registered.mem {n : ℕ} {db : Database} (h : Registered n db) {r : UserRecord}
    (hr : r ∈ db.users) :
    ∃ k < n, r.userId = userName k ∧ r.username = userName k ∧ r.disabledAt = none := by
  have hmem := List.mem_map_of_mem (f := fun r => (r.userId, r.username, r.disabledAt)) hr
  rw [h.users] at hmem
  obtain ⟨k, hk, he⟩ := List.mem_map.mp hmem
  simp only [Prod.mk.injEq] at he
  exact ⟨k, List.mem_range.mp hk, he.1.symm, he.2.1.symm, he.2.2.symm⟩

theorem Registered.exists {n k : ℕ} {db : Database} (h : Registered n db) (hk : k < n) :
    Creation.Exists (userName k) db := by
  have hmem : (userName k, userName k, none) ∈
      db.users.map fun r => (r.userId, r.username, r.disabledAt) := by
    rw [h.users]
    exact List.mem_map.mpr ⟨k, List.mem_range.mpr hk, rfl⟩
  obtain ⟨r, hr, he⟩ := List.mem_map.mp hmem
  exact ⟨r, hr, congrArg Prod.fst he⟩

theorem Registered.register {n : ℕ} {s : Server} (h : Registered n s.db) :
    (AuthService.register default ⟨userName n, "p", "d", "", "k", "k", "k", "w", "w", "w"⟩
      (some "s") (userName n) "d" ⟨userName n, userName n, userName n⟩).Ends (Call.exec default)
        (fun _ s' => Registered (n + 1) s'.db) s := by
  have hnew : ∀ r ∈ s.db.users, ¬ UserRepository.nocaseEq r.username (userName n) := by
    intro r hr he
    obtain ⟨k, hk, -, hname, -⟩ := h.mem hr
    have hlength := congrArg List.length (of_decide_eq_true he)
    rw [hname, List.length_map, List.length_map, length_userName, length_userName] at hlength
    omega
  have hid : ∀ r ∈ s.db.users, r.userId ≠ userName n := by
    intro r hr he
    obtain ⟨k, hk, hid, -⟩ := h.mem hr
    exact hk.ne (userName_inj (hid.symm.trans he))
  have hne : userName n ≠ "" := by
    intro he
    have hlength := congrArg (·.toList.length) he
    simp [length_userName] at hlength
  refine (ends_register ⟨userName n, "p", "d", "", "k", "k", "k", "w", "w", "w"⟩ rfl hid hnew
    (by simp [hne]) (by simp) (by simp)).mono ?_
  rintro res s' ⟨hconv, r, husers, hu, hname, hmark⟩
  constructor
  · rw [husers, List.map_append, h.users, List.range_succ, List.map_append]
    simp [hu, hname, hmark]
  · rw [hconv, h.conversations]

theorem registered_after (n : ℕ) :
    Registered n ((voxServer default).after {} (registrations n)).db := by
  induction n with
  | zero => exact ⟨rfl, rfl⟩
  | succ n ih =>
    rw [registrations, List.range_succ, List.map_append, System.after_append]
    exact ih.register

def firstUsers (n : ℕ) : List UserId := (List.range n).map userName

def groupOf (n : ℕ) : List (Op ⊕ Timestamp) :=
  registrations n ++ [.inl (.createGroup (userName 0) (firstUsers n) "c")]

theorem nodup_firstUsers (n : ℕ) : (firstUsers n).Nodup :=
  List.nodup_range.map fun _ _ h => userName_inj h

variable {n : ℕ}

theorem groupOf_kept (hmin : 2 ≤ n) (hmax : n ≤ 256) :
    ((voxServer default).after {} (groupOf n)).db.users =
        ((voxServer default).after {} (registrations n)).db.users ∧
      Shape.Kept "c" (.group (userName 0) (firstUsers n)) []
        ((voxServer default).after {} (groupOf n)).db := by
  have hreg := registered_after n
  have hv : ((voxServer default).after {} (registrations n)).db.Valid :=
    Op.valid_after default (by decide) _
  have hall : ∀ u ∈ firstUsers n,
      Creation.Exists u ((voxServer default).after {} (registrations n)).db := by
    intro u hu
    obtain ⟨k, hk, rfl⟩ := List.mem_map.mp hu
    exact hreg.exists (List.mem_range.mp hk)
  have hcard : (firstUsers n).toFinset.card = n := by
    rw [List.toFinset_card_of_nodup (nodup_firstUsers n), firstUsers, List.length_map,
      List.length_range]
  have hfirst : userName 0 ∈ firstUsers n := List.mem_map_of_mem (List.mem_range.mpr (by omega))
  rw [groupOf, System.after_append]
  obtain ⟨⟨hiff, hid, husers⟩, hkept⟩ :=
    (Requested.ends_createGroup default hv (by simp [hreg.conversations]) hall).and
      (Shape.ends_createGroup default hv (userName 0) (firstUsers n))
  obtain ⟨id, hres⟩ := hiff.mpr ⟨hfirst, by rwa [hcard], by rwa [hcard]⟩
  obtain rfl : id = "c" := hid id hres
  exact ⟨husers, hkept _ hres⟩

theorem groupOf_listed (hmin : 2 ≤ n) (hmax : n ≤ 256) :
    isUserInConversation "c" (userName 0) ((voxServer default).after {} (groupOf n)).db ∧
      listed "c" (userName 0) ((voxServer default).after {} (groupOf n)).db =
        (getMembers "c" ((voxServer default).after {} (groupOf n)).db).map (·.userId) ∧
      ((getMembers "c" ((voxServer default).after {} (groupOf n)).db).map (·.userId)).Perm
        (firstUsers n) := by
  have hv : ((voxServer default).after {} (groupOf n)).db.Valid :=
    Op.valid_after default (by decide) _
  obtain ⟨-, hkept⟩ := groupOf_kept hmin hmax
  generalize (voxServer default).after {} (groupOf n) = s at hv hkept ⊢
  obtain ⟨r, hr, hid, htype, -⟩ := hkept.conversation
  have hgroup : r.type = .group := htype
  refine ⟨?_, ?_, ?_⟩
  · refine (isUserInConversation_iff hv).mpr ⟨r, hr, hid, ?_⟩
    obtain ⟨m, hm, hk, -, ho⟩ := Membership.mem_activeMembers.mp
      ((hkept.members (userName 0) .owner).mpr ⟨hkept.owner, List.not_mem_nil⟩)
    rw [hgroup]
    exact ⟨m, hm, hk, ho⟩
  · have hfind : findById "c" s.db = some r :=
      hv.conversations_pk.find?_eq_some hr (decide_eq_true hid) fun r' _ h =>
        (of_decide_eq_true h).trans hid.symm
    exact listed_of_not_sees (not_sees_of_type hfind (by simp [hgroup]))
  · have hroles := (Requested.roles_perm hv fun u role => (hkept.members u role).trans
      (and_iff_left List.not_mem_nil)).map Prod.fst
    rw [(nodup_firstUsers n).dedup, Requested.roles, List.map_map, List.map_map] at hroles
    simpa [Function.comp_def] using hroles

theorem groupOf_not_hidden (hmin : 2 ≤ n) (hmax : n ≤ 256) {u : UserId} (hu : u ∈ firstUsers n) :
    ¬ Hidden ((voxServer default).after {} (groupOf n)).db u := by
  intro hidden
  have hreg := registered_after n
  obtain ⟨husers, -⟩ := groupOf_kept hmin hmax
  obtain ⟨k, hk, rfl⟩ := List.mem_map.mp hu
  obtain ⟨r, hr, hid⟩ := hreg.exists (List.mem_range.mp hk)
  obtain ⟨-, -, -, -, hmark⟩ := hreg.mem hr
  have hsome := hidden r (husers ▸ hr) hid
  rw [hmark] at hsome
  cases hsome

def askMembers : HttpRequest := { method := .get, target := "/v1/conversations/c/members" }

def firstSession : SessionRecord := { (default : SessionRecord) with userId := userName 0 }

theorem route_askMembers : getRoute (pathOnly askMembers.target) = some (.members "c") := by
  decide

/-- In a group of two, both are named. -/
theorem two_members_named :
    AllNamed default {} firstSession askMembers ((voxServer default).after {} (groupOf 2)) := by
  have hv : ((voxServer default).after {} (groupOf 2)).db.Valid :=
    Op.valid_after default (by decide) (groupOf 2)
  obtain ⟨hmember, hlisted, hperm⟩ := groupOf_listed (n := 2) le_rfl (by omega)
  generalize (voxServer default).after {} (groupOf 2) = s at hv hmember hlisted hperm ⊢
  refine (all_named_iff_rest_hidden default {} firstSession hv "c" rfl route_askMembers
    hmember).mpr ?_
  have hnone : (listed "c" (userName 0) s.db).drop UserRepository.kMaxUserIdsInBatch = [] := by
    rw [List.drop_eq_nil_iff, hlisted, hperm.length_eq]
    decide
  rw [firstSession, hnone]
  exact fun v hv => absurd hv List.not_mem_nil

theorem not_allNamed_of_length {s : Server} (hv : s.db.Valid)
    (hmember : isUserInConversation "c" (userName 0) s.db)
    (hlength : UserRepository.kMaxUserIdsInBatch < (listed "c" (userName 0) s.db).length)
    (hshown : ∀ v ∈ listed "c" (userName 0) s.db, ¬ Hidden s.db v) :
    ¬ AllNamed default {} firstSession askMembers s := by
  intro hnamed
  have h : ∀ v ∈ (listed "c" firstSession.userId s.db).drop UserRepository.kMaxUserIdsInBatch,
      Hidden s.db v := (allNamed_iff_hidden hv rfl route_askMembers hmember).mp hnamed
  obtain ⟨v, hv⟩ := List.exists_mem_of_length_pos (List.length_drop ▸ Nat.sub_pos_of_lt hlength)
  exact hshown v (List.mem_of_mem_drop hv) (h v hv)

/-- In a group of a hundred and one users, none of whom is disabled, one is not named. -/
theorem large_group_not_named :
    let s := (voxServer default).after {} (groupOf 101)
    isUserInConversation "c" firstSession.userId s.db ∧
      (getMembers "c" s.db).length = 101 ∧ 101 ≤ (default : ServerConfig).maxGroupSize ∧
      (∀ m ∈ getMembers "c" s.db, ¬ Hidden s.db m.userId) ∧
      ¬ AllNamed default {} firstSession askMembers s := by
  have hv : ((voxServer default).after {} (groupOf 101)).db.Valid :=
    Op.valid_after default (by decide) (groupOf 101)
  obtain ⟨hmember, hlisted, hperm⟩ := groupOf_listed (n := 101) (by omega) (by omega)
  have hshown : ∀ u ∈ firstUsers 101,
      ¬ Hidden ((voxServer default).after {} (groupOf 101)).db u :=
    fun u hu => groupOf_not_hidden (by omega) (by omega) hu
  generalize (voxServer default).after {} (groupOf 101) = s at hv hmember hlisted hperm hshown ⊢
  have hlength : (getMembers "c" s.db).length = 101 := by
    rw [← List.length_map (·.userId), hperm.length_eq, firstUsers, List.length_map,
      List.length_range]
  have hshown' : ∀ m ∈ getMembers "c" s.db, ¬ Hidden s.db m.userId :=
    fun m hm => hshown _ (hperm.subset (List.mem_map_of_mem hm))
  refine ⟨hmember, hlength, by decide, hshown', not_allNamed_of_length hv hmember ?_ ?_⟩
  · rw [hlisted, List.length_map, hlength]
    decide
  · intro v hv
    rw [hlisted] at hv
    exact hshown v (hperm.subset hv)

end Large

end VoxServer.MemberNames
