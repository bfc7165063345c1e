import Mathlib.Data.Set.Function
import VoxServer.Server.Arithmetic
import VoxServer.Server.System

/-! # The lifecycle of sessions

An access token is valid exactly when the history of the token manager says so:
it was issued, has not expired, and no later call has revoked its session. The
sessions table keeps one row for each issuance, and its active rows are those
that the history calls live.
-/

namespace VoxServer.Lifecycle

open Table Interleaving SessionRepository TokenManager

abbrev DoneOp := Done Op Op.Res

/-- What one issuance gave out. -/
structure Issuance where
  userId : UserId
  deviceId : DeviceId
  time : Timestamp
  sessionId : String
  tokens : TokenPair
  deriving DecidableEq, Repr

def issuance? : DoneOp → Option Issuance
  | ⟨.issueTokens u d now fresh, .ok tokens⟩ => some ⟨u, d, now, fresh.sessionId, tokens⟩
  | ⟨.refreshTokens _ d now fresh, .ok res⟩ =>
    some ⟨res.userId, d, now, fresh.sessionId, res.tokens⟩
  | _ => none

def revokes (i : Issuance) : DoneOp → Bool
  | ⟨.single (.sessions (.revokeSession sessionId _)), _⟩ => i.sessionId = sessionId
  | ⟨.single (.sessions (.revokeAllForUser u _)), _⟩ => i.userId = u
  | ⟨.single (.sessions (.revokeAllForDevice u d _)), _⟩ => i.userId = u ∧ i.deviceId = d
  | ⟨.refreshTokens t _ _ _, .ok _⟩ => i.tokens.refreshToken = t
  | ⟨.revokeByAccessToken t _, .ok _⟩ => i.tokens.accessToken = t
  | _ => false

/-- The session was issued, and no later call revoked it. -/
def Live (hist : List DoneOp) (i : Issuance) : Prop :=
  Since (fun x => issuance? x = some i) (fun x => revokes i x) hist

instance (hist : List DoneOp) (i : Issuance) : Decidable (Live hist i) :=
  inferInstanceAs (Decidable (Since _ _ hist))

def issueTime? : Op → Option Timestamp
  | .issueTokens _ _ now _ | .refreshTokens _ _ now _ => some now
  | _ => none

def isTokenOp : Op → Bool
  | .issueTokens .. | .refreshTokens .. | .revokeByAccessToken .. => true
  | .single (.sessions (.revokeSession ..)) => true
  | .single (.sessions (.revokeAllForUser ..)) => true
  | .single (.sessions (.revokeAllForDevice ..)) => true
  | _ => false

def fresh? : Op → Option FreshTokens
  | .issueTokens _ _ _ fresh | .refreshTokens _ _ _ fresh => some fresh
  | _ => none

def tokens : Op → List String
  | .issueTokens _ _ _ fresh => [fresh.accessToken, fresh.refreshToken]
  | .refreshTokens t _ _ fresh => [t, fresh.accessToken, fresh.refreshToken]
  | .revokeByAccessToken t _ => [t]
  | _ => []

/-- The generated tokens and session ids are pairwise distinct, and so are the hashes of all
tokens that occur, with those of `T`. -/
structure Fresh (cfg : ServerConfig) (T : Set String) (ops : List Op) : Prop where
  access : UniqueOn FreshTokens.accessToken (ops.filterMap fresh?)
  refresh : UniqueOn FreshTokens.refreshToken (ops.filterMap fresh?)
  ids : UniqueOn FreshTokens.sessionId (ops.filterMap fresh?)
  inj : Set.InjOn (hashToken cfg) T
  occur : ∀ o ∈ ops, ∀ t ∈ tokens o, t ∈ T

theorem mem_tokens_of_fresh? {o : Op} {f : FreshTokens} (h : fresh? o = some f) :
    f.accessToken ∈ tokens o ∧ f.refreshToken ∈ tokens o := by
  unfold fresh? at h
  split at h
  all_goals cases h
  · simp [tokens]
  · simp [tokens]

theorem Fresh.mem {cfg : ServerConfig} {T : Set String} {ops : List Op} {o : Op} {f : FreshTokens}
    (h : Fresh cfg T ops) (ho : o ∈ ops) (hf : fresh? o = some f) :
    f.accessToken ∈ T ∧ f.refreshToken ∈ T :=
  ⟨h.occur o ho _ (mem_tokens_of_fresh? hf).1, h.occur o ho _ (mem_tokens_of_fresh? hf).2⟩

theorem Fresh.occur_last {cfg : ServerConfig} {T : Set String} {ops : List Op} {o : Op}
    (h : Fresh cfg T (ops ++ [o])) {t : String} (ht : t ∈ tokens o) : t ∈ T :=
  h.occur o (by simp) t ht

theorem Fresh.last {cfg : ServerConfig} {T : Set String} {ops : List Op} {o : Op}
    {f f' : FreshTokens} (h : Fresh cfg T (ops ++ [o])) (hf : fresh? o = some f)
    (hf' : f' ∈ ops.filterMap fresh?) : f'.sessionId ≠ f.sessionId ∧
      hashToken cfg f'.accessToken ≠ hashToken cfg f.accessToken ∧
      hashToken cfg f'.refreshToken ≠ hashToken cfg f.refreshToken := by
  have hlast : (ops ++ [o]).filterMap fresh? = ops.filterMap fresh? ++ [f] := by simp [hf]
  obtain ⟨o', ho', hfo'⟩ := List.mem_filterMap.mp hf'
  obtain ⟨ha, hr⟩ := h.mem (by simp) hf
  obtain ⟨ha', hr'⟩ := h.mem (by simp [ho']) hfo'
  refine ⟨?_, fun he => ?_, fun he => ?_⟩
  · exact (uniqueOn_append_singleton.mp (hlast ▸ h.ids)).2 f' hf'
  · exact (uniqueOn_append_singleton.mp (hlast ▸ h.access)).2 f' hf'
      (h.inj ha' ha he)
  · exact (uniqueOn_append_singleton.mp (hlast ▸ h.refresh)).2 f' hf'
      (h.inj hr' hr he)

def sessionOf (cfg : ServerConfig) (i : Issuance) : SessionRecord :=
  newSession cfg i.userId i.deviceId i.time
    ⟨i.tokens.accessToken, i.tokens.refreshToken, i.sessionId⟩

section Sequential

variable (cfg : ServerConfig) (u : UserId) (d : DeviceId) (t : String) (now : Timestamp)
  (fresh : FreshTokens) (s : Server)

theorem run_issueTokens_cases :
    (∃ e, (issueTokens cfg u d now fresh).run (Call.exec cfg) s = (.error e, s)) ∨
    ∃ db', insertSession (newSession cfg u d now fresh) s.db = .ok db' ∧
      (issueTokens cfg u d now fresh).run (Call.exec cfg) s =
        (.ok ⟨fresh.accessToken, fresh.refreshToken⟩, { s with db := db' }) := by
  simp only [issueTokens, Prog.perform_bind, Prog.run_call, Call.exec, Call.onDb, SessionCall.exec,
    createSession]
  cases insertSession (newSession cfg u d now fresh) s.db with
  | ok db' => exact .inr ⟨db', rfl, rfl⟩
  | error e => exact .inl ⟨e.toInternal, rfl⟩

theorem run_refreshTokens_of_live {row : SessionRecord}
    (hfind : findByRefreshToken (hashToken cfg t) s.db = some row)
    (hexp : now < row.refreshExpiresAt) (hdev : row.deviceId = d) :
    (refreshTokens cfg t d now fresh).run (Call.exec cfg) s =
      match insertSession (newSession cfg row.userId d now fresh)
        (revokeWhere (·.sessionId = row.sessionId) now s.db) with
      | .ok db' =>
        (.ok ⟨⟨fresh.accessToken, fresh.refreshToken⟩, row.userId⟩, { s with db := db' })
      | .error e => (.error e.toInternal,
          { s with db := revokeWhere (·.sessionId = row.sessionId) now s.db }) := by
  obtain ⟨hrow, -, hact⟩ := findByRefreshToken_some hfind
  simp only [refreshTokens, Prog.perform_bind, Prog.run_call, Call.exec, Call.onDb,
    SessionCall.exec, hfind, if_neg (not_le.mpr hexp), hdev, ne_eq, not_true_eq_false, if_false,
    revokeSession_of_active hrow hact, issueTokens, Prog.call_bind, createSession]
  cases insertSession (newSession cfg row.userId d now fresh)
    (revokeWhere (·.sessionId = row.sessionId) now s.db) with
  | ok db' => rfl
  | error e => rfl

theorem run_refreshTokens_of_not_live
    (h : ∀ row, findByRefreshToken (hashToken cfg t) s.db = some row →
      now < row.refreshExpiresAt → row.deviceId ≠ d) :
    ∃ e, (refreshTokens cfg t d now fresh).run (Call.exec cfg) s = (.error e, s) := by
  simp only [refreshTokens, Prog.perform_bind, Prog.run_call, Call.exec, Call.onDb,
    SessionCall.exec]
  cases hfind : findByRefreshToken (hashToken cfg t) s.db with
  | none => exact ⟨_, rfl⟩
  | some row =>
    dsimp only
    split
    · exact ⟨_, rfl⟩
    · rename_i hexp
      rw [if_pos (h row hfind (not_le.mp hexp))]
      exact ⟨_, rfl⟩

/-- A refresh fails and changes nothing, or finds an active session and revokes it; then it returns
new tokens if the new session can be inserted. -/
theorem run_refreshTokens_cases :
    (∃ e, (refreshTokens cfg t d now fresh).run (Call.exec cfg) s = (.error e, s)) ∨
    ∃ row, findByRefreshToken (hashToken cfg t) s.db = some row ∧ row.deviceId = d ∧
      ∀ db', insertSession (newSession cfg row.userId d now fresh)
          (revokeWhere (·.sessionId = row.sessionId) now s.db) = .ok db' →
        (refreshTokens cfg t d now fresh).run (Call.exec cfg) s =
          (.ok ⟨⟨fresh.accessToken, fresh.refreshToken⟩, row.userId⟩, { s with db := db' }) := by
  by_cases hlive : ∃ row, findByRefreshToken (hashToken cfg t) s.db = some row ∧
      now < row.refreshExpiresAt ∧ row.deviceId = d
  · obtain ⟨row, hfind, hexp, hdev⟩ := hlive
    refine .inr ⟨row, hfind, hdev, fun db' hins => ?_⟩
    rw [run_refreshTokens_of_live cfg d t now fresh s hfind hexp hdev, hins]
  · refine .inl (run_refreshTokens_of_not_live cfg d t now fresh s ?_)
    exact fun row hfind hexp hdev => hlive ⟨row, hfind, hexp, hdev⟩

theorem run_validateAccessToken_cases :
    (∃ e, (validateAccessToken cfg t now).run (Call.exec cfg) s = (.error e, s) ∧
      ∀ row, findByAccessToken (hashToken cfg t) s.db = some row → row.accessExpiresAt ≤ now) ∨
    ∃ row, findByAccessToken (hashToken cfg t) s.db = some row ∧ now < row.accessExpiresAt ∧
      (validateAccessToken cfg t now).run (Call.exec cfg) s = (.ok row, s) := by
  simp only [validateAccessToken, Prog.perform_bind, Prog.run_call, Call.exec, Call.onDb,
    SessionCall.exec]
  cases findByAccessToken (hashToken cfg t) s.db with
  | none => exact .inl ⟨_, rfl, by simp⟩
  | some row =>
    dsimp only
    split
    · rename_i hexp
      exact .inl ⟨_, rfl, fun row' h => Option.some.inj h ▸ hexp⟩
    · rename_i hexp
      exact .inr ⟨row, rfl, not_le.mp hexp, rfl⟩

theorem run_revokeByAccessToken_cases :
    (∃ e, (revokeByAccessToken cfg t now).run (Call.exec cfg) s = (.error e, s)) ∨
    ∃ row, findByAccessToken (hashToken cfg t) s.db = some row ∧
      (revokeByAccessToken cfg t now).run (Call.exec cfg) s =
        (.ok (), { s with db := revokeWhere (·.sessionId = row.sessionId) now s.db }) := by
  rw [revokeByAccessToken, Prog.run_bind]
  rcases run_validateAccessToken_cases cfg t now s with ⟨e, he, -⟩ | ⟨row, hfind, -, he⟩
  · rw [he]
    exact .inl ⟨e, rfl⟩
  · rw [he]
    obtain ⟨hrow, -, hact⟩ := findByAccessToken_some hfind
    refine .inr ⟨row, hfind, ?_⟩
    simp only [TokenManager.revokeSession, Prog.perform, Prog.run_call, Call.exec, Call.onDb,
      SessionCall.exec, revokeSession_of_active hrow hact]
    rfl

end Sequential

section Tracking

variable {cfg : ServerConfig} {T : Set String}

/-- The tokens of the issuance are among those whose hashes are distinct. -/
def Known (T : Set String) (i : Issuance) : Prop :=
  i.tokens.accessToken ∈ T ∧ i.tokens.refreshToken ∈ T

def Carries (cfg : ServerConfig) (r : SessionRecord) (f : FreshTokens) : Prop :=
  r.sessionId = f.sessionId ∧ r.accessTokenHash = hashToken cfg f.accessToken ∧
    r.refreshTokenHash = hashToken cfg f.refreshToken

/-- The table and the history agree: the row of an issuance is there as it was issued exactly when
the issuance is live, there are no other active rows, and every row carries generated values. -/
structure Tracks (cfg : ServerConfig) (T : Set String) (hist : List DoneOp) (db : Database) :
    Prop where
  valid : db.Valid
  live : ∀ i, Known T i → (sessionOf cfg i ∈ db.sessions ↔ Live hist i)
  active : ∀ r ∈ db.sessions, r.Active → ∃ i, Known T i ∧ r = sessionOf cfg i
  carries : ∀ r ∈ db.sessions, ∃ f ∈ (hist.map Done.op).filterMap fresh?, Carries cfg r f
  known : ∀ x ∈ hist, ∀ i ∈ issuance? x, Known T i

theorem active_sessionOf (i : Issuance) : (sessionOf cfg i).Active := rfl

theorem sessionOf_inj (hinj : Set.InjOn (hashToken cfg) T) {i j : Issuance} (hi : Known T i)
    (hj : Known T j) (h : sessionOf cfg i = sessionOf cfg j) : i = j := by
  obtain ⟨u, d, now, id, a, r⟩ := i
  obtain ⟨u', d', now', id', a', r'⟩ := j
  simp only [sessionOf, newSession, SessionRecord.mk.injEq] at h
  obtain ⟨rfl, rfl, rfl, ha, hr, -, -, rfl, -⟩ := h
  obtain rfl : a = a' := hinj hi.1 hj.1 ha
  obtain rfl : r = r' := hinj hi.2 hj.2 hr
  rfl

theorem live_snoc {hist : List DoneOp} {x : DoneOp} {i : Issuance} :
    Live (hist ++ [x]) i ↔ issuance? x = some i ∨ (Live hist i ∧ ¬ revokes i x) := since_snoc

variable {hist : List DoneOp} {db db' : Database} {x : DoneOp}

theorem Tracks.known_of_live (h : Tracks cfg T hist db) {i : Issuance} (hi : Live hist i) :
    Known T i := by
  obtain ⟨hist₁, x, hist₂, rfl, hx, -⟩ := hi
  exact h.known x (by simp) i hx

theorem Tracks.snoc (h : Tracks cfg T hist db) (hv : db'.Valid)
    (hknown : ∀ i ∈ issuance? x, Known T i)
    (hkeep : ∀ i, Known T i → (sessionOf cfg i ∈ db'.sessions ↔
      issuance? x = some i ∨ (sessionOf cfg i ∈ db.sessions ∧ ¬ revokes i x)))
    (hact : ∀ r ∈ db'.sessions, r.Active →
      r ∈ db.sessions ∨ ∃ i, Known T i ∧ r = sessionOf cfg i)
    (hrows : ∀ r ∈ db'.sessions, (∃ r₀ ∈ db.sessions, ∀ f, Carries cfg r₀ f → Carries cfg r f) ∨
      ∃ f ∈ fresh? x.op, Carries cfg r f) : Tracks cfg T (hist ++ [x]) db' where
  valid := hv
  live i hi := by rw [hkeep i hi, live_snoc, h.live i hi]
  active r hr ha := by
    rcases hact r hr ha with hold | hnew
    · exact h.active r hold ha
    · exact hnew
  carries r hr := by
    simp only [List.map_append, List.map_cons, List.map_nil, List.filterMap_append,
      List.mem_append]
    rcases hrows r hr with ⟨r₀, hr₀, hc⟩ | ⟨f, hf, hc⟩
    · obtain ⟨f, hf, hcf⟩ := h.carries r₀ hr₀
      exact ⟨f, .inl hf, hc f hcf⟩
    · exact ⟨f, .inr (by simpa using hf), hc⟩
  known y hy := by
    rcases List.mem_append.mp hy with hy | hy
    · exact h.known y hy
    · rw [List.mem_singleton.mp hy]
      exact hknown

theorem Tracks.revoke (h : Tracks cfg T hist db) (p : SessionRecord → Bool) (now : Timestamp)
    (hiss : issuance? x = none)
    (hrev : ∀ i, Known T i → sessionOf cfg i ∈ db.sessions →
      (revokes i x ↔ p (sessionOf cfg i))) :
    Tracks cfg T (hist ++ [x]) (revokeWhere p now db) := by
  refine h.snoc (valid_revokeWhere h.valid) (by simp [hiss]) (fun i hi => ?_) (fun r hr ha => ?_)
    fun r hr => ?_
  · rw [mem_revokeWhere_active (active_sessionOf i), hiss]
    simp only [reduceCtorEq, false_or]
    exact and_congr_right fun hmem => not_congr (hrev i hi hmem).symm
  · exact .inl ((mem_revokeWhere_active ha).mp hr).1
  · rcases mem_revokeWhere.mp hr with ⟨hr, -⟩ | ⟨r₀, hr₀, -, -, rfl⟩
    · exact .inl ⟨r, hr, fun f hf => hf⟩
    · exact .inl ⟨r₀, hr₀, fun f hf => hf⟩

theorem Tracks.same (h : Tracks cfg T hist db) (hiss : issuance? x = none)
    (hrev : ∀ i, ¬ revokes i x) : Tracks cfg T (hist ++ [x]) db := by
  refine h.snoc h.valid (by simp [hiss]) (fun i _ => ?_) (fun r hr _ => .inl hr)
    fun r hr => .inl ⟨r, hr, fun f hf => hf⟩
  simp [hiss, hrev]

theorem Tracks.issue (h : Tracks cfg T hist db) (hinj : Set.InjOn (hashToken cfg) T)
    (p : SessionRecord → Bool) (now : Timestamp) {i : Issuance} {f : FreshTokens}
    (hi : Known T i) (hiss : issuance? x = some i) (hf : fresh? x.op = some f)
    (hcar : Carries cfg (sessionOf cfg i) f)
    (hins : insertSession (sessionOf cfg i) (revokeWhere p now db) = .ok db')
    (hrev : ∀ j, Known T j → sessionOf cfg j ∈ db.sessions →
      (revokes j x ↔ p (sessionOf cfg j))) :
    Tracks cfg T (hist ++ [x]) db' := by
  have hv := (SessionCall.Effect.create _ _ hins).valid (valid_revokeWhere h.valid)
  have hmem : ∀ r, r ∈ db'.sessions ↔
      r = sessionOf cfg i ∨ r ∈ (revokeWhere p now db).sessions := by
    obtain ⟨-, -, -, -, -, rfl⟩ := insertSession_ok hins
    exact fun r => (List.mem_append.trans or_comm).trans (or_congr_left List.mem_singleton)
  refine h.snoc hv (by simpa [hiss] using hi) (fun j hj => ?_) (fun r hr ha => ?_) fun r hr => ?_
  · rw [hmem, mem_revokeWhere_active (active_sessionOf j), hiss,
      Option.some.injEq]
    refine or_congr ⟨fun he => (sessionOf_inj hinj hj hi he).symm, fun he => by rw [he]⟩ ?_
    exact and_congr_right fun hm => not_congr (hrev j hj hm).symm
  · rcases (hmem r).mp hr with rfl | hr
    · exact .inr ⟨i, hi, rfl⟩
    · exact .inl ((mem_revokeWhere_active ha).mp hr).1
  · rcases (hmem r).mp hr with rfl | hr
    · exact .inr ⟨f, hf, hcar⟩
    · rcases mem_revokeWhere.mp hr with ⟨hr, -⟩ | ⟨r₀, hr₀, -, -, rfl⟩
      · exact .inl ⟨r, hr, fun f hf => hf⟩
      · exact .inl ⟨r₀, hr₀, fun f hf => hf⟩

section Operations

variable {s : Server} {u : UserId} {d : DeviceId} {t : String} {now : Timestamp} {f : FreshTokens}

def issuanceOf (u : UserId) (d : DeviceId) (now : Timestamp) (f : FreshTokens) : Issuance :=
  ⟨u, d, now, f.sessionId, ⟨f.accessToken, f.refreshToken⟩⟩

theorem revokeWhere_none (now : Timestamp) (db : Database) :
    revokeWhere (fun _ => false) now db = db := by
  rw [revokeWhere, updateWhere_eq_self (by simp)]

theorem Tracks.issueTokens (h : Tracks cfg T hist s.db)
    (hfresh : Fresh cfg T (hist.map Done.op ++ [.issueTokens u d now f])) :
    Tracks cfg T (hist ++ [⟨.issueTokens u d now f,
        ((TokenManager.issueTokens cfg u d now f).run (Call.exec cfg) s).1⟩])
      ((TokenManager.issueTokens cfg u d now f).run (Call.exec cfg) s).2.db := by
  rcases run_issueTokens_cases cfg u d now f s with ⟨e, he⟩ | ⟨db', hins, he⟩
  · rw [he]
    exact h.same rfl (by simp [revokes])
  · rw [he]
    rw [← revokeWhere_none now s.db] at hins
    exact h.issue hfresh.inj _ now (i := issuanceOf u d now f)
      ⟨hfresh.occur_last (.head _), hfresh.occur_last (.tail _ (.head _))⟩ rfl rfl
      ⟨rfl, rfl, rfl⟩ hins
      (by simp [revokes])

theorem Tracks.insert_fresh (h : Tracks cfg T hist db) (now : Timestamp) {o : Op}
    {row : SessionRecord}
    (hfresh : Fresh cfg T (hist.map Done.op ++ [o])) (hf : fresh? o = some f)
    (hrow : row ∈ db.sessions) (p : SessionRecord → Bool) :
    ∃ db', insertSession (newSession cfg row.userId row.deviceId now f) (revokeWhere p now db) =
      .ok db' := by
  have hnew : ∀ r ∈ (revokeWhere p now db).sessions, r.sessionId ≠ f.sessionId ∧
      r.accessTokenHash ≠ hashToken cfg f.accessToken ∧
      r.refreshTokenHash ≠ hashToken cfg f.refreshToken := by
    intro r hr
    obtain ⟨r₀, hr₀, hc⟩ : ∃ r₀ ∈ db.sessions, ∀ f, Carries cfg r₀ f → Carries cfg r f := by
      rcases mem_revokeWhere.mp hr with ⟨hr, -⟩ | ⟨r₀, hr₀, -, -, rfl⟩
      · exact ⟨r, hr, fun f hf => hf⟩
      · exact ⟨r₀, hr₀, fun f hf => hf⟩
    obtain ⟨f', hf', hcar⟩ := h.carries r₀ hr₀
    obtain ⟨hid, ha, hr⟩ := hc f' hcar
    rw [hid, ha, hr]
    exact hfresh.last hf hf'
  exact ⟨_, insertSession_eq_ok (fun r hr => (hnew r hr).1) (fun r hr => (hnew r hr).2.1)
    (fun r hr => (hnew r hr).2.2) (h.valid.sessions_user row hrow)
    (h.valid.sessions_device row hrow)⟩

theorem Tracks.refreshTokens (h : Tracks cfg T hist s.db)
    (hfresh : Fresh cfg T (hist.map Done.op ++ [.refreshTokens t d now f])) :
    Tracks cfg T (hist ++ [⟨.refreshTokens t d now f,
        ((TokenManager.refreshTokens cfg t d now f).run (Call.exec cfg) s).1⟩])
      ((TokenManager.refreshTokens cfg t d now f).run (Call.exec cfg) s).2.db := by
  rcases run_refreshTokens_cases cfg d t now f s with ⟨e, he⟩ | ⟨row, hfind, rfl, hok⟩
  · rw [he]
    exact h.same rfl (by simp [revokes])
  · obtain ⟨hrow, hhash, hact⟩ := findByRefreshToken_some hfind
    obtain ⟨db', hins⟩ := h.insert_fresh now hfresh rfl hrow (·.sessionId = row.sessionId)
    rw [hok db' hins]
    refine h.issue hfresh.inj _ now (i := issuanceOf row.userId row.deviceId now f)
      ⟨hfresh.occur_last (.tail _ (.head _)), hfresh.occur_last (.tail _ (.tail _ (.head _)))⟩
      rfl rfl ⟨rfl, rfl, rfl⟩ hins ?_
    intro j hj hmem
    simp only [revokes, decide_eq_true_eq]
    constructor
    · rintro rfl
      rw [h.valid.sessions_refresh.eq_of_mem hmem hrow hhash.symm]
    · intro hid
      rw [← h.valid.sessions_pk.eq_of_mem hmem hrow hid] at hhash
      exact hfresh.inj hj.2 (hfresh.occur_last (.head _)) hhash

theorem Tracks.revokeByAccessToken (h : Tracks cfg T hist s.db)
    (hinj : Set.InjOn (hashToken cfg) T) (ht : t ∈ T) :
    Tracks cfg T (hist ++ [⟨.revokeByAccessToken t now,
        ((TokenManager.revokeByAccessToken cfg t now).run (Call.exec cfg) s).1⟩])
      ((TokenManager.revokeByAccessToken cfg t now).run (Call.exec cfg) s).2.db := by
  rcases run_revokeByAccessToken_cases cfg t now s with ⟨e, he⟩ | ⟨row, hfind, he⟩
  · rw [he]
    exact h.same rfl (by simp [revokes])
  · obtain ⟨hrow, hhash, hact⟩ := findByAccessToken_some hfind
    rw [he]
    refine h.revoke _ now rfl fun j hj hmem => ?_
    simp only [revokes, decide_eq_true_eq]
    constructor
    · rintro rfl
      rw [h.valid.sessions_access.eq_of_mem hmem hrow hhash.symm]
    · intro hid
      rw [← h.valid.sessions_pk.eq_of_mem hmem hrow hid] at hhash
      exact hinj hj.1 ht hhash

theorem Tracks.step (h : Tracks cfg T hist s.db) {o : Op} (ho : isTokenOp o)
    (hfresh : Fresh cfg T (hist.map Done.op ++ [o])) :
    Tracks cfg T (hist ++ [⟨o, ((o.code cfg).run (Call.exec cfg) s).1⟩])
      ((o.code cfg).run (Call.exec cfg) s).2.db := by
  unfold isTokenOp at ho
  split at ho
  · exact h.issueTokens hfresh
  · exact h.refreshTokens hfresh
  · exact h.revokeByAccessToken hfresh.inj (hfresh.occur_last (.head _))
  · rename_i sessionId now
    change Tracks cfg T _ (SessionRepository.revokeSession sessionId now s.db).2
    rw [revokeSession_snd]
    exact h.revoke _ now rfl fun j _ _ => Iff.rfl
  · exact h.revoke _ _ rfl fun j _ _ => Iff.rfl
  · exact h.revoke _ _ rfl fun j _ _ => Iff.rfl
  · cases ho

end Operations

end Tracking

theorem Fresh.of_append {cfg : ServerConfig} {T : Set String} {ops ops' : List Op}
    (h : Fresh cfg T (ops ++ ops')) : Fresh cfg T ops := by
  have hsub : (ops.filterMap fresh?).Sublist ((ops ++ ops').filterMap fresh?) :=
    (List.sublist_append_left ops ops').filterMap fresh?
  exact ⟨h.access.sublist (hsub.map _), h.refresh.sublist (hsub.map _), h.ids.sublist (hsub.map _),
    h.inj, fun o ho => h.occur o (List.mem_append_left _ ho)⟩

/-- The table agrees with the history after every run of the token manager. -/
theorem tracks_performAll (cfg : ServerConfig) (T : Set String) (init : Server) (ops : List Op)
    (hv : init.db.Valid) (h0 : init.db.sessions = []) (hops : ∀ o ∈ ops, isTokenOp o)
    (hfresh : Fresh cfg T ops) :
    Tracks cfg T ((voxServer cfg).performAll init ops).1
      ((voxServer cfg).performAll init ops).2.db := by
  rw [← (voxServer cfg).map_op_performAll init ops] at hfresh
  revert hfresh
  refine (voxServer cfg).history_invariant (P := fun o => isTokenOp o)
    (I := fun hist s => Fresh cfg T (hist.map Done.op) → Tracks cfg T hist s.db) ?_ ?_ ops hops
  · intro _
    exact ⟨hv, by simp [h0, Live], by simp [h0], by simp [h0], by simp⟩
  · intro hist s o ho ih hfresh
    rw [List.map_append] at hfresh
    exact (ih hfresh.of_append).step ho hfresh

theorem issueTime?_of_issuance? {x : DoneOp} {i : Issuance} (h : issuance? x = some i) :
    issueTime? x.op = some i.time := by
  unfold issuance? at h
  split at h
  all_goals cases h
  · rfl
  · rfl

theorem Live.exists_op {cfg : ServerConfig} {init : Server} {ops : List Op} {i : Issuance}
    (h : Live ((voxServer cfg).performAll init ops).1 i) :
    ∃ o ∈ ops, issueTime? o = some i.time := by
  obtain ⟨hist₁, x, hist₂, hhist, hx, -⟩ := h
  refine ⟨x.op, ?_, issueTime?_of_issuance? hx⟩
  rw [← (voxServer cfg).map_op_performAll init ops, hhist]
  simp

/-- Validation follows the history: after every run of the token manager, from a database without
sessions, with distinct generated values and with expiry times of 64 bits, a token is valid exactly
when it is the access token of an issuance that has not expired and that no later call revoked. It
gives the user and the device of that issuance. -/
theorem validate_iff_live (cfg : ServerConfig) (init : Server) (ops : List Op) (t : String)
    (now : Timestamp) (hv : init.db.Valid) (h0 : init.db.sessions = [])
    (hops : ∀ o ∈ ops, isTokenOp o)
    (hfit : ∀ o ∈ ops, ∀ s ∈ issueTime? o, InInt64 (s + cfg.accessTokenLifetimeSeconds))
    (hfresh : Fresh cfg {x | x = t ∨ ∃ o ∈ ops, x ∈ tokens o} ops) (u : UserId) (d : DeviceId) :
    (∃ row, ((validateAccessToken cfg t now).run (Call.exec cfg)
        ((voxServer cfg).performAll init ops).2).1 = .ok row ∧ row.userId = u ∧ row.deviceId = d) ↔
    ∃ i, Live ((voxServer cfg).performAll init ops).1 i ∧ i.tokens.accessToken = t ∧
      now < i.time + cfg.accessTokenLifetimeSeconds ∧ i.userId = u ∧ i.deviceId = d := by
  have h := tracks_performAll cfg _ init ops hv h0 hops hfresh
  have hexpires : ∀ i, Live ((voxServer cfg).performAll init ops).1 i →
      (sessionOf cfg i).accessExpiresAt = i.time + cfg.accessTokenLifetimeSeconds := by
    intro i hi
    obtain ⟨o, ho, htime⟩ := Live.exists_op hi
    exact toInt64_eq_self.mpr (hfit o ho i.time htime)
  generalize (voxServer cfg).performAll init ops = p at h hexpires ⊢
  obtain ⟨hist, s⟩ := p
  have hcases := run_validateAccessToken_cases cfg t now s
  constructor
  · rintro ⟨row, hrow, rfl, rfl⟩
    rcases hcases with ⟨e, he, -⟩ | ⟨row', hfind, hexp, he⟩
    · rw [he] at hrow
      cases hrow
    · obtain rfl : row' = row := by simpa [he] using hrow
      obtain ⟨hmem, hhash, hact⟩ := findByAccessToken_some hfind
      obtain ⟨i, hi, rfl⟩ := h.active row' hmem hact
      have hlive := (h.live i hi).mp hmem
      rw [hexpires i hlive] at hexp
      exact ⟨i, hlive, hfresh.inj hi.1 (.inl rfl) hhash, hexp, rfl, rfl⟩
  · rintro ⟨i, hlive, rfl, hexp, rfl, rfl⟩
    have hi := h.known_of_live hlive
    have hfind : findByAccessToken (hashToken cfg i.tokens.accessToken) s.db =
        some (sessionOf cfg i) :=
      (findByAccessToken_eq_some h.valid).mpr ⟨(h.live i hi).mpr hlive, rfl, rfl⟩
    rcases hcases with ⟨e, -, hle⟩ | ⟨row, hfind', -, he⟩
    · rw [← hexpires i hlive] at hexp
      exact absurd (hle _ hfind) (not_le.mpr hexp)
    · obtain rfl : row = sessionOf cfg i := Option.some.inj (hfind'.symm.trans hfind)
      exact ⟨_, congrArg Prod.fst he, rfl, rfl⟩

def refreshThenRevoke : List Op :=
  [.issueTokens "u" "d" 0 ⟨"a1", "r1", "s1"⟩, .refreshTokens "r1" "d" 10 ⟨"a2", "r2", "s2"⟩,
   .revokeByAccessToken "a1" 20]

theorem refreshThenRevoke_valid :
    ∃ row, ((validateAccessToken default "a2" 100).run (Call.exec default)
        ((voxServer default).performAll oneDevice refreshThenRevoke).2).1 = .ok row ∧
      row.userId = "u" ∧ row.deviceId = "d" :=
  (validate_iff_live default oneDevice refreshThenRevoke "a2" 100 (by decide) rfl
    (by decide) (by decide) ⟨by decide, by decide, by decide, fun _ _ _ _ h => h,
      fun o ho t ht => .inr ⟨o, ho, ht⟩⟩ "u" "d").mpr
    ⟨⟨"u", "d", 10, "s2", ⟨"a2", "r2"⟩⟩, by decide, rfl, by decide, rfl, rfl⟩

def issueAtOne : List Op := [.issueTokens "u" "d" 1 ⟨"a", "r", "s"⟩]

/-- With a lifetime that the configuration accepts, the expiry time overflows, and a token that is
live is refused at once. -/
theorem live_and_refused :
    ∃ c, Config.loadServerConfigFile
        (some "access_token_lifetime_seconds = 9223372036854775807") {} = (.ok (), c) ∧
      oneDevice.db.Valid ∧ oneDevice.db.sessions = [] ∧ (∀ o ∈ issueAtOne, isTokenOp o) ∧
      Fresh (servicesConfig c default) {x | x = "a" ∨ ∃ o ∈ issueAtOne, x ∈ tokens o} issueAtOne ∧
      Live ((voxServer (servicesConfig c default)).performAll oneDevice issueAtOne).1
        ⟨"u", "d", 1, "s", ⟨"a", "r"⟩⟩ ∧
      1 < 1 + (servicesConfig c default).accessTokenLifetimeSeconds ∧
      ((validateAccessToken (servicesConfig c default) "a" 1).run
        (Call.exec (servicesConfig c default))
        ((voxServer (servicesConfig c default)).performAll oneDevice issueAtOne).2).1 =
          .error ⟨.expired, "Access token expired"⟩ := by
  refine ⟨{ accessTokenLifetimeSeconds := 9223372036854775807 }, by decide, by decide, rfl,
    by decide, ⟨by decide, by decide, by decide, fun _ _ _ _ h => h,
      fun o ho t ht => .inr ⟨o, ho, ht⟩⟩, by decide, by decide, by decide⟩

end VoxServer.Lifecycle
