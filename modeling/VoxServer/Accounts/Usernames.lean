import VoxServer.Server.System

/-! # Usernames

`Register` looks a name up, hashes the password and only then creates the user, so
another registration can come in between. The call that creates the user checks the
name once more, ignoring case, in the same step. No other call gives a user a name.
-/

namespace VoxServer.Accounts

open Interleaving Prog Table UserRepository

/-- No two users have names that are equal up to the case of ASCII letters. -/
def DistinctNames (db : Database) : Prop :=
  db.users.Pairwise fun u v => ¬ nocaseEq u.username v.username

instance (db : Database) : Decidable (DistinctNames db) :=
  inferInstanceAs (Decidable (List.Pairwise _ _))

def Creates (r : UserRecord) (ev : Ev) : Prop :=
  ev.call = .users (.createUser r) ∧ (createUser r ev.pre.db).1 = .ok ()

def Deletes (u : UserId) (ev : Ev) : Prop :=
  ev.call = .admin (.deleteUserRows u) ∧ ((AdminCall.deleteUserRows u).exec ev.pre.db).1 = .ok ()

def Registered (run : ServerRun) (i : ℕ) (name : String) (u : UserId) : Prop :=
  ∃ request salt d fresh res, request.username = name ∧
    run.threads[i]? = some ⟨.register request salt u d fresh, .ret (.ok res)⟩

/-- The first operation created its user, the user was deleted, and after that the second operation
created its own. -/
def Replaced (run : ServerRun) (i : ℕ) (u : UserId) (j : ℕ) (v : UserId) : Prop :=
  ∃ tr₁ a tr₂ d tr₃ b tr₄ r r',
    run.trace = tr₁ ++ a :: (tr₂ ++ d :: (tr₃ ++ b :: tr₄)) ∧
    a.tid = i ∧ Creates r a ∧ r.userId = u ∧ Deletes u d ∧ b.tid = j ∧ Creates r' b ∧ r'.userId = v

section Names

/-- What `COLLATE NOCASE` compares. -/
def foldedName (u : UserRecord) : List Char := u.username.toList.map Char.toLower

theorem nocaseEq_iff {u v : UserRecord} :
    nocaseEq u.username v.username ↔ foldedName u = foldedName v := decide_eq_true_iff

theorem distinctNames_iff {db : Database} : DistinctNames db ↔ UniqueOn foldedName db.users := by
  rw [DistinctNames, UniqueOn, List.Nodup, List.pairwise_map]
  simp only [nocaseEq_iff, ne_eq]

theorem findByUsername_eq_some {db : Database} (h : DistinctNames db) {name : String}
    {r : UserRecord} :
    findByUsername name db = some r ↔ r ∈ db.users ∧ nocaseEq r.username name := by
  constructor
  · intro hf
    have hname := List.find?_some hf
    exact ⟨List.mem_of_find?_eq_some hf, hname⟩
  · rintro ⟨hr, hname⟩
    refine (distinctNames_iff.mp h).find?_eq_some hr hname fun r' _ hr' => ?_
    exact (decide_eq_true_iff.mp hr').trans (decide_eq_true_iff.mp hname).symm

end Names

section Calls

variable (cfg : ServerConfig) {c : Call} {s : Server}

theorem names_of_exec :
    (c.exec cfg s).2.db.users.map (fun u => (u.userId, u.username)) =
      s.db.users.map (fun u => (u.userId, u.username)) ∨
    (∃ r, c = .users (.createUser r) ∧ (∀ u ∈ s.db.users, ¬ nocaseEq u.username r.username) ∧
      (c.exec cfg s).2.db.users = s.db.users ++ [{ r with disabledAt := none }]) ∨
    ∃ u, c = .admin (.deleteUserRows u) ∧ ((AdminCall.deleteUserRows u).exec s.db).1 = .ok () ∧
      (c.exec cfg s).2.db.users = deleteWhere (·.userId = u) s.db.users := by
  by_cases hc : ∃ a, c = .users a
  · obtain ⟨a, rfl⟩ := hc
    have hkeep : ∀ u f, (∀ r : UserRecord, (f r).userId = r.userId ∧ (f r).username = r.username) →
        ((updateUser u f s.db).2.users.map fun u => (u.userId, u.username)) =
          s.db.users.map fun u => (u.userId, u.username) := by
      intro u f hf
      rw [UserCall.updateUser_snd]
      exact map_updateWhere fun r => Prod.ext (hf r).1 (hf r).2
    cases a with
    | createUser r =>
      rcases createUser_cases r s.db with ⟨e, he⟩ | ⟨-, hnames, he⟩
      · left
        simp only [Call.exec, UserCall.exec, Call.onDb, he]
      · refine .inr (.inl ⟨r, rfl, hnames, ?_⟩)
        simp only [Call.exec, UserCall.exec, Call.onDb, he]
    | disableUser u now => exact .inl (hkeep u _ fun _ => ⟨rfl, rfl⟩)
    | setSyncKeyBundle u b => exact .inl (hkeep u _ fun _ => ⟨rfl, rfl⟩)
    | updatePasswordCredentials u salt v => exact .inl (hkeep u _ fun _ => ⟨rfl, rfl⟩)
    | _ => exact .inl rfl
  · by_cases ha : c.isAdmin
    · cases c with
      | admin a =>
        cases a with | deleteUserRows u =>
        cases hrows : AdminService.deleteUserRows u s.db with
        | ok db' =>
          obtain ⟨rfl, -⟩ := AdminService.deleteUserRows_ok hrows
          refine .inr (.inr ⟨u, rfl, ?_, ?_⟩)
          · simp only [AdminCall.exec, hrows]
          · simp only [Call.exec, AdminCall.exec, hrows, Call.onDb, AdminService.withoutUser]
        | error e =>
          left
          simp only [Call.exec, AdminCall.exec, hrows, Call.onDb]
      | _ => cases ha
    · left
      rw [Call.exec_users cfg (not_exists.mp hc) ha]

theorem DistinctNames.exec (h : DistinctNames s.db) : DistinctNames (c.exec cfg s).2.db := by
  rw [distinctNames_iff] at h ⊢
  rcases names_of_exec cfg (c := c) (s := s) with he | ⟨r, -, hnames, he⟩ | ⟨u, -, -, he⟩
  · have hfold : foldedName = (fun p : UserId × String => p.2.toList.map Char.toLower) ∘
        fun u => (u.userId, u.username) := rfl
    rwa [UniqueOn, hfold, ← List.map_map, he, List.map_map, ← hfold]
  · rw [he, uniqueOn_append_singleton]
    refine ⟨h, fun u hu hfold => hnames u hu ?_⟩
    exact decide_eq_true hfold
  · rw [he]
    exact h.deleteWhere

theorem user_exec {u : UserId} {name : String} {i : ℕ} (hno : ¬ Deletes u ⟨i, c, s⟩)
    (h : ∃ r ∈ s.db.users, r.userId = u ∧ r.username = name) :
    ∃ r ∈ (c.exec cfg s).2.db.users, r.userId = u ∧ r.username = name := by
  obtain ⟨r, hr, rfl, rfl⟩ := h
  rcases names_of_exec cfg (c := c) (s := s) with he | ⟨n, -, -, he⟩ | ⟨v, rfl, hok, he⟩
  · have hmem := List.mem_map_of_mem (f := fun u : UserRecord => (u.userId, u.username)) hr
    rw [← he] at hmem
    obtain ⟨r', hr', heq⟩ := List.mem_map.mp hmem
    exact ⟨r', hr', Prod.mk.inj heq⟩
  · rw [he]
    exact ⟨r, List.mem_append_left _ hr, rfl, rfl⟩
  · rw [he]
    refine ⟨r, mem_deleteWhere.mpr ⟨hr, fun hv => ?_⟩, rfl, rfl⟩
    obtain rfl := of_decide_eq_true hv
    exact hno ⟨rfl, hok⟩

theorem follows_register_ok {request : RegisterRequest} {salt : Option String} {u d : String}
    {fresh : FreshTokens} {es : List Ev} {res : RegisterResponse}
    (h : Follows (Call.exec cfg) (AuthService.register cfg request salt u d fresh) es
      (.ret (.ok res))) :
    ∃ ev ∈ es, ∃ r, Creates r ev ∧ r.userId = u ∧ r.username = request.username := by
  unfold AuthService.register at h
  split at h
  · simp at h
  split at h
  · simp at h
  split at h
  · simp at h
  rw [perform_bind, follows_call_ret] at h
  obtain ⟨i₁, s₁, es₁, rfl, h⟩ := h
  split at h
  · simp at h
  split at h
  · simp at h
  rw [perform_bind, follows_call_ret] at h
  obtain ⟨i₂, s₂, es₂, rfl, h⟩ := h
  rw [perform_bind, follows_call_ret] at h
  obtain ⟨i₃, s₃, es₃, rfl, h⟩ := h
  split at h
  · simp at h
  · rename_i hok
    refine ⟨_, List.mem_cons_of_mem _ (List.mem_cons_of_mem _ List.mem_cons_self), ?_⟩
    exact ⟨_, ⟨rfl, hok⟩, rfl, rfl⟩

end Calls

section Runs

variable (cfg : ServerConfig) (init : Server) (acts : List Act)

theorem named_since (r : UserRecord) :
    Always (fun tr ev => Since (Creates r) (Deletes r.userId) tr →
      ∃ x ∈ ev.pre.db.users, x.userId = r.userId ∧ x.username = r.username)
      (serve cfg init acts).trace := by
  refine ((voxServer cfg).trace_invariant (P := fun _ => True)
    (I := fun tr s => (Since (Creates r) (Deletes r.userId) tr →
        ∃ x ∈ s.db.users, x.userId = r.userId ∧ x.username = r.username) ∧
      Always (fun tr ev => Since (Creates r) (Deletes r.userId) tr →
        ∃ x ∈ ev.pre.db.users, x.userId = r.userId ∧ x.username = r.username) tr)
    ?_ ?_ ?_ acts (fun o _ => (o.code cfg).only_true)).2
  · exact ⟨fun h => absurd h not_since_nil, always_nil⟩
  · rintro tr s i c - ⟨hnamed, htr⟩
    refine ⟨fun hsince => ?_, always_snoc.mpr ⟨htr, hnamed⟩⟩
    rcases since_snoc.mp hsince with ⟨hc, hok⟩ | ⟨hsince, hno⟩
    · obtain rfl : c = .users (.createUser r) := hc
      rcases createUser_cases r s.db with ⟨e, he⟩ | ⟨-, -, he⟩
      · rw [he] at hok
        cases hok
      · refine ⟨{ r with disabledAt := none }, ?_, rfl, rfl⟩
        simp [voxServer, Call.exec, UserCall.exec, Call.onDb, he]
    · exact user_exec cfg hno (hnamed hsince)
  · exact fun _ _ _ h => h

/-- Of two creations with the same name, the first user is deleted before the second creation. -/
theorem deleted_between {tr₁ tr₂ tr₃ : List Ev} {a b : Ev} {r r' : UserRecord}
    (htr : (serve cfg init acts).trace = tr₁ ++ a :: (tr₂ ++ b :: tr₃)) (ha : Creates r a)
    (hb : Creates r' b) (hname : nocaseEq r.username r'.username) :
    ∃ d ∈ tr₂, Deletes r.userId d := by
  by_contra hnone
  have hno : ∀ e ∈ tr₂, ¬ Deletes r.userId e := fun e he hd => hnone ⟨e, he, hd⟩
  have halways := named_since cfg init acts r
  rw [htr, ← List.cons_append, ← List.append_assoc] at halways
  obtain ⟨x, hx, -, hxname⟩ := halways.at ⟨tr₁, a, tr₂, rfl, ha, hno⟩
  rcases createUser_cases r' b.pre.db with ⟨e, he⟩ | ⟨-, hnames, -⟩
  · have hok := hb.2
    rw [he] at hok
    cases hok
  · exact hnames x hx (hxname ▸ hname)

theorem creation_of_registered {cfg : ServerConfig} {init : Server} {acts : List Act} {i : ℕ}
    {name : String} {u : UserId} (h : Registered (serve cfg init acts) i name u) :
    ∃ ev ∈ (serve cfg init acts).trace, ev.tid = i ∧
      ∃ r, Creates r ev ∧ r.userId = u ∧ r.username = name := by
  obtain ⟨request, salt, d, fresh, res, rfl, ht⟩ := h
  obtain ⟨ev, hev, hr⟩ :=
    follows_register_ok cfg (((voxServer cfg).coherent_run init acts).follows i _ ht)
  obtain ⟨hmem, htid⟩ := mem_of_mem_localTrace hev
  exact ⟨ev, hmem, htid, hr⟩

theorem replaced_of_before {tr₁ rest : List Ev} {a b : Ev} {r r' : UserRecord}
    (htr : (serve cfg init acts).trace = tr₁ ++ a :: rest) (hb : b ∈ rest) (ha : Creates r a)
    (hb' : Creates r' b) (hname : nocaseEq r.username r'.username) :
    Replaced (serve cfg init acts) a.tid r.userId b.tid r'.userId := by
  obtain ⟨tr₂, tr₄, rfl⟩ := List.append_of_mem hb
  obtain ⟨d, hd, hdel⟩ := deleted_between cfg init acts htr ha hb' hname
  obtain ⟨tr₂, tr₃, rfl⟩ := List.append_of_mem hd
  rw [List.append_assoc, List.cons_append] at htr
  exact ⟨tr₁, a, tr₂, d, tr₃, b, tr₄, r, r', htr, rfl, ha, rfl, hdel, rfl, hb', rfl⟩

end Runs

/-- A user registers and is deleted, and another one registers under the name in capitals. -/
def registerAgain : List Act :=
  registerAlice ++ .spawn (.deleteUser "a") :: .run 1 :: .run 1 ::
    .spawn (.register ⟨"ALICE", "p", "d", "", "k", "k", "k", "w", "w", "w"⟩ (some "s") "b" "d"
      ⟨"t", "r", "s"⟩) :: List.replicate 6 (.run 2)

end VoxServer.Accounts
