import VoxServer.Auth.AuthService
import VoxServer.Interleaving.Sequential

/-! # Account operations that fail

`Register` and `RefreshTokens` make several writes, each committed on its own, and return at
the first that fails. What was written before stays: a user without a device or a session, or
a revoked session without a new one. So a failed operation leaves no trace exactly if no call
fails after another one has written.
-/

namespace VoxServer.Accounts

open Interleaving Prog

abbrev Faults := Call → Option Error

/-- The reply of a call that fails, for the calls of account operations that can. -/
def failWith (e : Error) : (c : Call) → Option c.Reply
  | .users (.createUser _) => some (.error e)
  | .devices (.registerDevice _) => some (.error e)
  | .sessions (.createSession _) => some (.error e)
  | .sessions (.revokeSession _ _) => some (.error e)
  | _ => none

/-- A call that is chosen to fail has no effect. -/
def execWithFaults (cfg : ServerConfig) (faults : Faults) (c : Call) (s : Server) :
    c.Reply × Server :=
  match (faults c).bind (failWith · c) with
  | some reply => (reply, s)
  | none => c.exec cfg s

def committed : Done Call Call.Reply → Bool
  | ⟨.users (.createUser _), .ok ()⟩ => true
  | ⟨.devices (.registerDevice _), .ok ()⟩ => true
  | ⟨.sessions (.createSession _), .ok ()⟩ => true
  | ⟨.sessions (.revokeSession _ _), .ok ()⟩ => true
  | _ => false

def failed : Done Call Call.Reply → Bool
  | ⟨.users (.createUser _), .error _⟩ => true
  | ⟨.devices (.registerDevice _), .error _⟩ => true
  | ⟨.sessions (.createSession _), .error _⟩ => true
  | ⟨.sessions (.revokeSession _ _), .error _⟩ => true
  | _ => false

/-- No call fails after one that has written. -/
def Unbroken (calls : List (Done Call Call.Reply)) : Prop :=
  calls.Pairwise fun a b => ¬ (committed a ∧ failed b)

/-- If the result is an error, the tables are as before. -/
def LeavesNoTrace {α τ : Type} (tables : Database → τ) (s : Server) (result : Result α)
    (s' : Server) : Prop :=
  (∃ e, result = .error e) → tables s'.db = tables s.db

section Calls

variable (cfg : ServerConfig) (faults : Faults) (s : Server)

theorem execWithFaults_of_none {c : Call} (h : ∀ e, failWith e c = none) :
    execWithFaults cfg faults c s = c.exec cfg s := by
  have hnone : (faults c).bind (failWith · c) = none := by
    cases faults c with
    | none => rfl
    | some e => exact h e
  rw [execWithFaults, hnone]

theorem createUser_withFaults (user : UserRecord) :
    (∃ e, execWithFaults cfg faults (.users (.createUser user)) s = (.error e, s)) ∨
      execWithFaults cfg faults (.users (.createUser user)) s = (.ok (), { s with
        db := { s.db with users := s.db.users ++ [{ user with disabledAt := none }] } }) := by
  unfold execWithFaults
  cases faults (.users (.createUser user)) with
  | some e => exact .inl ⟨e, rfl⟩
  | none =>
    rcases UserRepository.createUser_cases user s.db with ⟨e, he⟩ | ⟨-, -, he⟩
    · exact .inl ⟨e, congrArg (Call.onDb · s) he⟩
    · exact .inr (congrArg (Call.onDb · s) he)

theorem registerDevice_withFaults (device : DeviceRecord) :
    (∃ e, execWithFaults cfg faults (.devices (.registerDevice device)) s = (.error e, s)) ∨
      execWithFaults cfg faults (.devices (.registerDevice device)) s = (.ok (), { s with
        db := { s.db with devices := s.db.devices ++ [device] } }) := by
  unfold execWithFaults
  cases faults (.devices (.registerDevice device)) with
  | some e => exact .inl ⟨e, rfl⟩
  | none =>
    rcases DeviceRepository.registerDevice_cases device s.db with ⟨-, he⟩ | ⟨-, -, he⟩
    · exact .inl ⟨_, congrArg (Call.onDb · s) he⟩
    · exact .inr (congrArg (Call.onDb · s) he)

theorem createSession_withFaults (session : SessionRecord) :
    (∃ e, execWithFaults cfg faults (.sessions (.createSession session)) s = (.error e, s)) ∨
      execWithFaults cfg faults (.sessions (.createSession session)) s =
        (.ok (), { s with db := { s.db with
          sessions := s.db.sessions ++ [{ session with revokedAt := none }] } }) := by
  unfold execWithFaults
  cases faults (.sessions (.createSession session)) with
  | some e => exact .inl ⟨e, rfl⟩
  | none =>
    rcases SessionRepository.createSession_cases session s.db with ⟨e, he⟩ | he
    · exact .inl ⟨e, congrArg (Call.onDb · s) he⟩
    · exact .inr (congrArg (Call.onDb · s) he)

theorem revokeSession_withFaults {session : SessionRecord} (h : session ∈ s.db.sessions)
    (ha : session.Active) (now : Timestamp) :
    (∃ e, execWithFaults cfg faults (.sessions (.revokeSession session.sessionId now)) s =
      (.error e, s)) ∨
    execWithFaults cfg faults (.sessions (.revokeSession session.sessionId now)) s =
      (.ok (), { s with
        db := SessionRepository.revokeWhere (·.sessionId = session.sessionId) now s.db }) := by
  unfold execWithFaults
  cases faults (.sessions (.revokeSession session.sessionId now)) with
  | some e => exact .inl ⟨e, rfl⟩
  | none =>
    exact .inr (congrArg (Call.onDb · s) (SessionRepository.revokeSession_of_active h ha))

end Calls

section Rules

variable {cfg : ServerConfig} {faults : Faults} {s start : Server} {α τ : Type}
  {tables : Database → τ}

/-- Run from a state, the program leaves no trace of an error exactly if no call fails after one
that has written. -/
def Clean (cfg : ServerConfig) (faults : Faults) (tables : Database → τ)
    (p : ServerProg (Result α)) (s : Server) : Prop :=
  LeavesNoTrace tables s (p.run (execWithFaults cfg faults) s).1
      (p.run (execWithFaults cfg faults) s).2 ↔
    Unbroken (p.trace (execWithFaults cfg faults) s)

/-- The rest of a program that has written since it started: it succeeds with all its calls, or one
of them fails and the tables are no longer what they were. -/
def AfterWrite (cfg : ServerConfig) (faults : Faults) (tables : Database → τ) (start : Server)
    (p : ServerProg (Result α)) (s : Server) : Prop :=
  (∃ a, (p.run (execWithFaults cfg faults) s).1 = .ok a) ∧
      (∀ b ∈ p.trace (execWithFaults cfg faults) s, ¬ failed b) ∨
    (∃ e, (p.run (execWithFaults cfg faults) s).1 = .error e) ∧
      (∃ b ∈ p.trace (execWithFaults cfg faults) s, failed b) ∧
      tables (p.run (execWithFaults cfg faults) s).2.db ≠ tables start.db

theorem clean_ret (result : Result α) : Clean cfg faults tables (ret result) s :=
  iff_of_true (fun _ => rfl) .nil

theorem clean_call {c : Call} {f : c.Reply → ServerProg (Result α)}
    (hc : ¬ committed ⟨c, (execWithFaults cfg faults c s).1⟩)
    (hs : (execWithFaults cfg faults c s).2 = s)
    (hf : Clean cfg faults tables (f (execWithFaults cfg faults c s).1) s) :
    Clean cfg faults tables (perform c >>= f) s := by
  unfold Clean at hf ⊢
  rw [trace_perform_bind, Prog.perform_bind, run_call, hs, hf, Unbroken, Unbroken,
    List.pairwise_cons, and_iff_right]
  exact fun b _ hb => hc hb.1

theorem clean_read {c : Call} {f : c.Reply → ServerProg (Result α)}
    (h : ∀ e, failWith e c = none) (hc : ∀ r, ¬ committed ⟨c, r⟩) (hs : (c.exec cfg s).2 = s)
    (hf : Clean cfg faults tables (f (c.exec cfg s).1) s) :
    Clean cfg faults tables (perform c >>= f) s := by
  have he := execWithFaults_of_none cfg faults s h
  exact clean_call (hc _) (by rw [he, hs]) (by rwa [he])

theorem clean_write {c : Call} {f : c.Reply → ServerProg (Result α)}
    (hc : committed ⟨c, (execWithFaults cfg faults c s).1⟩)
    (hf : AfterWrite cfg faults tables s (f (execWithFaults cfg faults c s).1)
      (execWithFaults cfg faults c s).2) :
    Clean cfg faults tables (perform c >>= f) s := by
  unfold Clean
  rw [trace_perform_bind, Prog.perform_bind, run_call, Unbroken, List.pairwise_cons]
  rcases hf with ⟨⟨a, ha⟩, hnone⟩ | ⟨⟨e, he⟩, ⟨b, hb, hfail⟩, hne⟩
  · refine iff_of_true ?_ ⟨fun b hb h => hnone b hb h.2, ?_⟩
    · rintro ⟨e, he⟩
      cases ha.symm.trans he
    · exact List.pairwise_of_forall_mem_list fun _ _ b hb h => hnone b hb h.2
  · exact iff_of_false (fun h => hne (h ⟨e, he⟩)) fun h => h.1 b hb ⟨hc, hfail⟩

theorem afterWrite_ok (a : α) : AfterWrite cfg faults tables start (ret (.ok a)) s :=
  .inl ⟨⟨a, rfl⟩, by simp⟩

theorem afterWrite_call {c : Call} {f : c.Reply → ServerProg (Result α)}
    (hc : ¬ failed ⟨c, (execWithFaults cfg faults c s).1⟩)
    (hf : AfterWrite cfg faults tables start (f (execWithFaults cfg faults c s).1)
      (execWithFaults cfg faults c s).2) :
    AfterWrite cfg faults tables start (perform c >>= f) s := by
  unfold AfterWrite at hf ⊢
  rw [trace_perform_bind, Prog.perform_bind, run_call]
  refine hf.imp (And.imp_right fun hnone => ?_) (And.imp_right (And.imp_left ?_))
  · exact List.forall_mem_cons.mpr ⟨hc, hnone⟩
  · rintro ⟨b, hb, hfail⟩
    exact ⟨b, List.mem_cons_of_mem _ hb, hfail⟩

theorem afterWrite_failed {c : Call} {f : c.Reply → ServerProg (Result α)} {e : Error}
    (hc : failed ⟨c, (execWithFaults cfg faults c s).1⟩)
    (hs : (execWithFaults cfg faults c s).2 = s)
    (hf : f (execWithFaults cfg faults c s).1 = ret (.error e))
    (hne : tables s.db ≠ tables start.db) :
    AfterWrite cfg faults tables start (perform c >>= f) s := by
  unfold AfterWrite
  rw [trace_perform_bind, Prog.perform_bind, run_call, hs, hf]
  exact .inr ⟨⟨e, rfl⟩, ⟨_, List.mem_cons_self, hc⟩, hne⟩

variable {f : VoidResult → ServerProg (Result α)}

theorem clean_createUser {user : UserRecord} (herr : ∀ e, f (.error e) = ret (.error e))
    (hok : AfterWrite cfg faults tables s (f (.ok ())) { s with
      db := { s.db with users := s.db.users ++ [{ user with disabledAt := none }] } }) :
    Clean cfg faults tables (perform (.users (.createUser user)) >>= f) s := by
  rcases createUser_withFaults cfg faults s user with ⟨e, he⟩ | he
  · refine clean_call (by simp [he, committed]) (by rw [he]) ?_
    rw [he, herr]
    exact clean_ret _
  · exact clean_write (by simp [he, committed]) (by rwa [he])

theorem clean_revokeSession {session : SessionRecord} {now : Timestamp}
    (h : session ∈ s.db.sessions) (ha : session.Active)
    (herr : ∀ e, f (.error e) = ret (.error e))
    (hok : AfterWrite cfg faults tables s (f (.ok ())) { s with
      db := SessionRepository.revokeWhere (·.sessionId = session.sessionId) now s.db }) :
    Clean cfg faults tables
      (perform (.sessions (.revokeSession session.sessionId now)) >>= f) s := by
  rcases revokeSession_withFaults cfg faults s h ha now with ⟨e, he⟩ | he
  · refine clean_call (by simp [he, committed]) (by rw [he]) ?_
    rw [he, herr]
    exact clean_ret _
  · exact clean_write (by simp [he, committed]) (by rwa [he])

theorem afterWrite_registerDevice {device : DeviceRecord}
    (hne : tables s.db ≠ tables start.db) (herr : ∀ e, f (.error e) = ret (.error e))
    (hok : AfterWrite cfg faults tables start (f (.ok ())) { s with
      db := { s.db with devices := s.db.devices ++ [device] } }) :
    AfterWrite cfg faults tables start (perform (.devices (.registerDevice device)) >>= f) s := by
  rcases registerDevice_withFaults cfg faults s device with ⟨e, he⟩ | he
  · exact afterWrite_failed (by simp [he, failed]) (by rw [he]) (by rw [he, herr]) hne
  · exact afterWrite_call (by simp [he, failed]) (by rwa [he])

theorem afterWrite_createSession {session : SessionRecord}
    (hne : tables s.db ≠ tables start.db) (herr : ∀ e, f (.error e) = ret (.error e))
    (hok : AfterWrite cfg faults tables start (f (.ok ())) { s with
      db := { s.db with sessions := s.db.sessions ++ [{ session with revokedAt := none }] } }) :
    AfterWrite cfg faults tables start (perform (.sessions (.createSession session)) >>= f) s := by
  rcases createSession_withFaults cfg faults s session with ⟨e, he⟩ | he
  · exact afterWrite_failed (by simp [he, failed]) (by rw [he]) (by rw [he, herr]) hne
  · exact afterWrite_call (by simp [he, failed]) (by rwa [he])

end Rules

def accountTables (db : Database) : List UserRecord × List DeviceRecord × List SessionRecord :=
  (db.users, db.devices, db.sessions)

section Operations

variable (cfg : ServerConfig) (faults : Faults) (s : Server)

theorem accountTables_ne {db db' : Database} {user : UserRecord}
    (h : db'.users = db.users ++ [user]) : accountTables db' ≠ accountTables db := by
  intro he
  have hlen := congrArg (fun t => t.1.length) he
  simp [accountTables, h] at hlen

theorem register_clean (request : RegisterRequest) (salt : Option String)
    (userUuid deviceUuid : String) (fresh : FreshTokens) :
    Clean cfg faults accountTables
      (AuthService.register cfg request salt userUuid deviceUuid fresh) s := by
  unfold AuthService.register
  split
  · exact clean_ret _
  split
  · exact clean_ret _
  split
  · exact clean_ret _
  refine clean_read (fun _ => rfl) (fun _ => by simp [committed]) rfl ?_
  split
  · exact clean_ret _
  split
  · exact clean_ret _
  refine clean_read (fun _ => rfl) (fun _ => by simp [committed]) rfl ?_
  refine clean_createUser (fun _ => rfl) ?_
  refine afterWrite_registerDevice (accountTables_ne rfl) (fun _ => rfl) ?_
  refine afterWrite_createSession (accountTables_ne rfl) (fun _ => rfl) ?_
  exact afterWrite_ok _

theorem sessions_ne {session : SessionRecord} {now : Timestamp} (h : session ∈ s.db.sessions)
    (ha : session.Active) :
    (SessionRepository.revokeWhere (·.sessionId = session.sessionId) now s.db).sessions ≠
      s.db.sessions := by
  intro he
  have hmem := (SessionRepository.mem_revokeWhere_active ha).mp (he.symm ▸ h)
  exact hmem.2 (by simp)

theorem refreshTokens_clean (refreshToken : String) (deviceId : DeviceId) (now : Timestamp)
    (fresh : FreshTokens) : Clean cfg faults Database.sessions
      (TokenManager.refreshTokens cfg refreshToken deviceId now fresh) s := by
  unfold TokenManager.refreshTokens
  refine clean_read (fun _ => rfl) (fun _ => by simp [committed]) rfl ?_
  cases hfind : SessionRepository.findByRefreshToken
    (TokenManager.hashToken cfg refreshToken) s.db with
  | none =>
    simp only [Call.exec, Call.onDb, SessionCall.exec, hfind]
    exact clean_ret _
  | some session =>
    simp only [Call.exec, Call.onDb, SessionCall.exec, hfind]
    obtain ⟨hmem, -, hactive⟩ := SessionRepository.findByRefreshToken_some hfind
    split
    · exact clean_ret _
    split
    · exact clean_ret _
    refine clean_revokeSession hmem hactive (fun _ => rfl) ?_
    refine afterWrite_createSession (sessions_ne s hmem hactive) (fun _ => rfl) ?_
    exact afterWrite_ok _

/-- Whatever call is chosen to fail, a failed registration leaves the tables of accounts as they
were, and a failed refresh the sessions, exactly if no call fails after one that has written. -/
theorem no_trace_iff_unbroken :
    (∀ (request : RegisterRequest) (salt : Option String) (userUuid deviceUuid : String)
        (fresh : FreshTokens),
      let p := AuthService.register cfg request salt userUuid deviceUuid fresh
      LeavesNoTrace accountTables s (p.run (execWithFaults cfg faults) s).1
          (p.run (execWithFaults cfg faults) s).2 ↔
        Unbroken (p.trace (execWithFaults cfg faults) s)) ∧
    ∀ (refreshToken : String) (deviceId : DeviceId) (now : Timestamp) (fresh : FreshTokens),
      let p := TokenManager.refreshTokens cfg refreshToken deviceId now fresh
      LeavesNoTrace Database.sessions s (p.run (execWithFaults cfg faults) s).1
          (p.run (execWithFaults cfg faults) s).2 ↔
        Unbroken (p.trace (execWithFaults cfg faults) s) :=
  ⟨register_clean cfg faults s, refreshTokens_clean cfg faults s⟩

end Operations

def sessionFails : Faults
  | .sessions (.createSession _) => some ⟨.internal, "disk I/O error"⟩
  | _ => none

def aliceRegisters : ServerProg (Result RegisterResponse) :=
  AuthService.register default ⟨"alice", "p", "d", "", "k", "k", "k", "w", "w", "w"⟩ (some "s") "a"
    "d" ⟨"t", "r", "s"⟩

def aliceRefreshes : ServerProg (Result RefreshResult) :=
  TokenManager.refreshTokens default "r" "d" 1 ⟨"t'", "r'", "s'"⟩

/-- A registration without its session keeps the name, and a refresh without its new session loses
the old one. -/
theorem session_fails_leaves_trace :
    (∃ e s, aliceRegisters.run (execWithFaults default sessionFails) {} = (.error e, s) ∧
      ¬ LeavesNoTrace accountTables {} (.error e : Result RegisterResponse) s ∧
      (aliceRegisters.run (Call.exec default) s).1 =
        .error ⟨.alreadyExists, "Username already taken"⟩) ∧
    ∃ s₀ e s, (aliceRegisters.run (Call.exec default) {}).2 = s₀ ∧
      aliceRefreshes.run (execWithFaults default sessionFails) s₀ = (.error e, s) ∧
      ¬ LeavesNoTrace Database.sessions s₀ (.error e : Result RefreshResult) s ∧
      (aliceRefreshes.run (Call.exec default) s).1 =
        .error ⟨.unauthorized, "Invalid refresh token"⟩ := by
  refine ⟨⟨_, _, rfl, fun h => ?_, by decide⟩, _, _, _, rfl, rfl, fun h => ?_, by decide⟩
  · exact absurd (h ⟨_, rfl⟩) (by decide)
  · exact absurd (h ⟨_, rfl⟩) (by decide)

end VoxServer.Accounts
