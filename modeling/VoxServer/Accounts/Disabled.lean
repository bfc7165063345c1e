import VoxServer.Server.Wiring
import VoxServer.Sessions.Lifecycle

/-! # Disabled accounts

`DisableUser` marks the row of the user. `Login` looks at the mark, `Refresh` works from the
session and does not. So a disabled user gets no tokens by logging in, and gets them by a
refresh as long as one of the sessions from before can be refreshed.
-/

namespace VoxServer.Accounts

open Interleaving Prog Table UserRepository SessionRepository TokenManager

def isAccountOp : Op → Bool
  | .register .. | .login .. | .refresh .. => true
  | .single (.users (.disableUser ..)) => true
  | _ => false

def tokens? : (o : Op) → o.Res → Option TokenPair
  | .login .., .ok response => some response.tokens
  | .refresh .., .ok tokens => some tokens
  | _, _ => none

def BelongTo (cfg : ServerConfig) (u : UserId) (t : TokenPair) (db : Database) : Prop :=
  ∃ x, findByAccessToken (hashToken cfg t.accessToken) db = some x ∧ x.userId = u

/-- Made in the state, the login or refresh returns tokens for the user. -/
def ReturnsTokens (cfg : ServerConfig) (u : UserId) (o : Op) (s : Server) : Prop :=
  (o.code cfg).Ends (Call.exec cfg)
    (fun res s' => ∃ t, tokens? o res = some t ∧ BelongTo cfg u t s'.db) s

def DisabledIn (cfg : ServerConfig) (init : Server) (acts : List (Op ⊕ Timestamp)) (u : UserId) :
    Prop :=
  ∃ pre now post, acts = pre ++ .inl (.single (.users (.disableUser u now))) :: post ∧
    (disableUser u now ((voxServer cfg).after init pre).db).1 = .ok ()

def unused (cfg : ServerConfig) (fresh : FreshTokens) (db : Database) : Bool :=
  db.sessions.all fun x => x.sessionId ≠ fresh.sessionId ∧
    x.accessTokenHash ≠ hashToken cfg fresh.accessToken ∧
    x.refreshTokenHash ≠ hashToken cfg fresh.refreshToken

/-- The operation presents the refresh token of a session of the user that is not revoked and has
not expired, for its device, and the new tokens can be stored. -/
def redeems (cfg : ServerConfig) (u : UserId) (s : Server) : Op → Bool
  | .refresh request fresh =>
    (findByRefreshToken (hashToken cfg request.refreshToken) s.db).any fun x =>
      x.userId = u ∧ s.clock < x.refreshExpiresAt ∧ x.deviceId = request.deviceId ∧
        unused cfg fresh s.db
  | _ => false

structure Disabled (u : UserId) (db : Database) : Prop where
  exists_row : ∃ r ∈ db.users, r.userId = u
  disabled : ∀ r ∈ db.users, r.userId = u → r.disabledAt.isSome

section Disabled

variable {cfg : ServerConfig} {u : UserId} {s : Server} {c : Call}

theorem Disabled.exec (h : Disabled u s.db) (ha : ¬ c.isAdmin) :
    Disabled u (c.exec cfg s).2.db := by
  by_cases hc : ∃ a, c = .users a
  · obtain ⟨a, rfl⟩ := hc
    refine ⟨(a.exec_effect s.db).exists_userId h.exists_row, fun r hr hu => ?_⟩
    cases UserCall.origin_of_exec hr with
    | kept _ hr₀ => exact h.disabled r hr₀ hu
    | created r hid =>
      -- The id of a new user is not that of the disabled one.
      obtain ⟨r₀, hr₀, hu₀⟩ := h.exists_row
      exact absurd (hu₀.trans hu.symm) (hid r₀ hr₀)
    | disabled hr₀ now => rfl
    | @rewrapped r₀ hr₀ b => exact h.disabled r₀ hr₀ hu
    | @rehashed r₀ hr₀ salt verifier => exact h.disabled r₀ hr₀ hu
  · have husers : (c.exec cfg s).2.db.users = s.db.users :=
      Call.exec_users cfg (not_exists.mp hc) ha
    exact ⟨husers ▸ h.exists_row, husers ▸ h.disabled⟩

theorem disabled_of_disableUser {now : Timestamp} {db : Database}
    (h : (disableUser u now db).1 = .ok ()) : Disabled u (disableUser u now db).2 := by
  have hrow : ∃ r ∈ db.users, r.userId = u := by
    by_contra hnone
    have hcount : db.users.countP (·.userId = u) = 0 :=
      List.countP_eq_zero.mpr fun r hr hu => hnone ⟨r, hr, by simpa using hu⟩
    simp [disableUser, UserRepository.updateUser, hcount] at h
  constructor
  · exact ((UserCall.disableUser u now).exec_effect db).exists_userId hrow
  · intro r hr hu
    rcases UserCall.of_mem_updateUser hr with ⟨-, hne⟩ | ⟨r₀, -, -, rfl⟩
    · exact absurd hu hne
    · rfl

theorem not_isAdmin_of_mayCall {o : Op} (ho : isAccountOp o) (hc : o.mayCall c) :
    ¬ c.isAdmin := by
  intro ha
  cases c with
  | admin a =>
    cases o with
    | single c' =>
      obtain rfl := of_decide_eq_true hc
      cases ho
    | register => cases hc
    | login => cases hc
    | refresh => cases hc
    | _ => cases ho
  | _ => cases ha

end Disabled

section Tokens

variable {cfg : ServerConfig} {u : UserId} {d : DeviceId} {now : Timestamp} {fresh : FreshTokens}
  {db db' : Database}

theorem findByAccessToken_of_insertSession
    (h : insertSession (newSession cfg u d now fresh) db = .ok db') :
    findByAccessToken (hashToken cfg fresh.accessToken) db' =
      some (newSession cfg u d now fresh) := by
  obtain ⟨-, hacc, -, -, -, rfl⟩ := insertSession_ok h
  have hnone : db.sessions.find? (fun x =>
      x.accessTokenHash = hashToken cfg fresh.accessToken ∧ x.Active) = none := by
    rw [List.find?_eq_none]
    intro x hx hfound
    exact hacc x hx (of_decide_eq_true hfound).1
  rw [findByAccessToken, List.find?_append, hnone]
  simp [newSession, SessionRecord.Active]

theorem unused_iff : unused cfg fresh db ↔ ∀ x ∈ db.sessions, x.sessionId ≠ fresh.sessionId ∧
    x.accessTokenHash ≠ hashToken cfg fresh.accessToken ∧
    x.refreshTokenHash ≠ hashToken cfg fresh.refreshToken := by
  simp [unused]

theorem unused_revokeWhere (p : SessionRecord → Bool) :
    unused cfg fresh (revokeWhere p now db) = unused cfg fresh db := by
  unfold unused revokeWhere updateWhere
  dsimp only
  rw [List.all_map]
  congr 1
  funext x
  dsimp only [Function.comp]
  split <;> rfl

theorem insertSession_refreshed_iff (hv : db.Valid) {x : SessionRecord} (hx : x ∈ db.sessions)
    (p : SessionRecord → Bool) :
    (∃ db', insertSession (newSession cfg x.userId x.deviceId now fresh)
      (revokeWhere p now db) = .ok db') ↔ unused cfg fresh db := by
  have hrevoked : unused cfg fresh (revokeWhere p now db) = unused cfg fresh db :=
    unused_revokeWhere p
  rw [← hrevoked, unused_iff]
  constructor
  · rintro ⟨db', h⟩
    obtain ⟨hid, hacc, href, -⟩ := insertSession_ok h
    exact fun y hy => ⟨hid y hy, hacc y hy, href y hy⟩
  · intro h
    refine ⟨_, insertSession_eq_ok (fun y hy => (h y hy).1) (fun y hy => (h y hy).2.1)
      (fun y hy => (h y hy).2.2) ?_ ?_⟩
    · exact hv.sessions_user x hx
    · exact hv.sessions_device x hx

end Tokens

section Steps

variable {cfg : ServerConfig} {u : UserId} {s : Server}

theorem returnsTokens_refresh_of_live (hv : s.db.Valid) {request : RefreshRequest}
    {fresh : FreshTokens} {x : SessionRecord}
    (hfind : findByRefreshToken (hashToken cfg request.refreshToken) s.db = some x)
    (hexp : s.clock < x.refreshExpiresAt) (hdev : x.deviceId = request.deviceId) :
    ReturnsTokens cfg u (.refresh request fresh) s ↔ x.userId = u ∧ unused cfg fresh s.db := by
  change (AuthService.refresh cfg request fresh).Ends (Call.exec cfg) _ s ↔ _
  rw [AuthService.refresh, ends_perform_bind, ends_bind, Ends]
  obtain ⟨hx, -⟩ := findByRefreshToken_some hfind
  have hins_iff := @insertSession_refreshed_iff cfg s.clock fresh s.db hv x hx
    (·.sessionId = x.sessionId)
  have hrun := Lifecycle.run_refreshTokens_of_live cfg request.deviceId request.refreshToken
    s.clock fresh s hfind hexp hdev
  rw [← hins_iff]
  simp only [Call.exec, hrun, hdev]
  cases hins : insertSession (newSession cfg x.userId request.deviceId s.clock fresh)
      (revokeWhere (·.sessionId = x.sessionId) s.clock s.db) with
  | ok db' =>
    have hfound := findByAccessToken_of_insertSession hins
    constructor
    · rintro ⟨t, ht, y, hy, hu⟩
      cases ht
      obtain rfl := Option.some.inj (hfound.symm.trans hy)
      exact ⟨hu, db', rfl⟩
    · rintro ⟨hu, -⟩
      exact ⟨_, rfl, _, hfound, hu⟩
  | error e =>
    constructor
    · rintro ⟨t, ht, -⟩
      cases ht
    · rintro ⟨-, db', h⟩
      cases h

theorem not_returnsTokens_refresh {request : RefreshRequest} {fresh : FreshTokens}
    (hlive : ∀ x, findByRefreshToken (hashToken cfg request.refreshToken) s.db = some x →
      s.clock < x.refreshExpiresAt → x.deviceId ≠ request.deviceId) :
    ¬ ReturnsTokens cfg u (.refresh request fresh) s := by
  change ¬ (AuthService.refresh cfg request fresh).Ends (Call.exec cfg) _ s
  rw [AuthService.refresh, ends_perform_bind, ends_bind, Ends]
  obtain ⟨e, he⟩ := Lifecycle.run_refreshTokens_of_not_live cfg request.deviceId
    request.refreshToken s.clock fresh s hlive
  simp only [Call.exec, he]
  rintro ⟨t, ht, -⟩
  cases ht

/-- A refresh returns tokens for the user exactly if it redeems one of the sessions of the user;
that the user is disabled plays no part. -/
theorem returnsTokens_refresh_iff (hv : s.db.Valid) (request : RefreshRequest)
    (fresh : FreshTokens) : ReturnsTokens cfg u (.refresh request fresh) s ↔
      redeems cfg u s (.refresh request fresh) := by
  by_cases hlive : ∃ x, findByRefreshToken (hashToken cfg request.refreshToken) s.db = some x ∧
      s.clock < x.refreshExpiresAt ∧ x.deviceId = request.deviceId
  · obtain ⟨x, hfind, hexp, hdev⟩ := hlive
    rw [returnsTokens_refresh_of_live hv hfind hexp hdev]
    simp [redeems, hfind, hexp, hdev]
  · have hnot : ¬ ReturnsTokens cfg u (.refresh request fresh) s := by
      refine not_returnsTokens_refresh fun x hfind hexp hdev => ?_
      exact hlive ⟨x, hfind, hexp, hdev⟩
    refine iff_of_false hnot fun h => ?_
    obtain ⟨x, hfind, hx⟩ := Option.any_eq_true .. |>.mp h
    obtain ⟨-, hexp, hdev, -⟩ := of_decide_eq_true hx
    exact hlive ⟨x, hfind, hexp, hdev⟩

theorem BelongTo.eq {v : UserId} {t : TokenPair} {db : Database} (hu : BelongTo cfg u t db)
    (hv : BelongTo cfg v t db) : u = v := by
  obtain ⟨x, hx, rfl⟩ := hu
  obtain ⟨y, hy, rfl⟩ := hv
  rw [Option.some.inj (hx.symm.trans hy)]

theorem ends_issueTokens (u : UserId) (d : DeviceId) (now : Timestamp) (fresh : FreshTokens) :
    (issueTokens cfg u d now fresh).Ends (Call.exec cfg)
      (fun res s' => ∀ t, res = .ok t → BelongTo cfg u t s'.db) s := by
  unfold Ends
  rcases Lifecycle.run_issueTokens_cases cfg u d now fresh s with ⟨e, he⟩ | ⟨db', hins, he⟩
  · rw [he]
    intro t ht
    cases ht
  · rw [he]
    intro t ht
    cases ht
    exact ⟨_, findByAccessToken_of_insertSession hins, rfl⟩

theorem ends_login (request : LoginRequest) (uuid : String) (fresh : FreshTokens) :
    (AuthService.login cfg request uuid fresh).Ends (Call.exec cfg)
      (fun res s' => ∀ response, res = .ok response →
        ∃ r ∈ s.db.users, r.disabledAt = none ∧ BelongTo cfg r.userId response.tokens s'.db) s := by
  rw [AuthService.login, ends_perform_bind]
  simp only [Call.exec, Call.onDb, UserCall.exec]
  cases hfind : findByUsername request.username s.db with
  | none => simp
  | some user =>
    dsimp only
    split
    · simp
    · rename_i hmark
      split
      · simp
      · rw [ends_perform_bind, ends_bind, Ends]
        -- Whatever becomes of the device, the session is one of the user that was found.
        split
        · simp
        · apply Ends.bind
          apply (ends_issueTokens _ _ _ _).mono
          intro res s' hres
          cases res with
          | error e => simp
          | ok t =>
            intro response hresponse
            cases hresponse
            exact ⟨user, List.mem_of_find?_eq_some hfind, by simpa using hmark, hres t rfl⟩

theorem not_returnsTokens_login (h : Disabled u s.db) (request : LoginRequest) (uuid : String)
    (fresh : FreshTokens) : ¬ ReturnsTokens cfg u (.login request uuid fresh) s := by
  have hlogin := @ends_login cfg s request uuid fresh
  unfold ReturnsTokens
  change ¬ (AuthService.login cfg request uuid fresh).Ends (Call.exec cfg) _ s
  unfold Ends at hlogin ⊢
  generalize run (Call.exec cfg) (AuthService.login cfg request uuid fresh) s = r at hlogin ⊢
  rintro ⟨t, ht, hu⟩
  obtain ⟨res, s'⟩ := r
  cases res with
  | error e => cases ht
  | ok response =>
    cases ht
    obtain ⟨r, hr, hmark, hbelong⟩ := hlogin response rfl
    have hdisabled := h.disabled r hr (hbelong.eq hu)
    rw [hmark] at hdisabled
    cases hdisabled

theorem returnsTokens_iff (hv : s.db.Valid) (h : Disabled u s.db) {o : Op} (ho : isAccountOp o) :
    ReturnsTokens cfg u o s ↔ redeems cfg u s o := by
  cases o with
  | refresh request fresh => exact returnsTokens_refresh_iff hv request fresh
  | login request uuid fresh =>
    simpa [redeems] using not_returnsTokens_login h request uuid fresh
  | register request salt uuid deviceUuid fresh =>
    simp [redeems, ReturnsTokens, Ends, tokens?]
  | single c => simp [redeems, ReturnsTokens, Ends, tokens?]
  | _ => cases ho

end Steps

section Runs

variable {cfg : ServerConfig} {u : UserId} {init : Server} {acts : List (Op ⊕ Timestamp)}

theorem Disabled.after (h : Disabled u init.db) (acts : List (Op ⊕ Timestamp))
    (hops : ∀ o, .inl o ∈ acts → isAccountOp o) :
    Disabled u ((voxServer cfg).after init acts).db := by
  apply (voxServer cfg).after_invariant (I := fun s => Disabled u s.db)
    (P := fun o => isAccountOp o)
  · intro s o ho hs
    exact (o.code_only cfg).ends (fun c s hc hs => hs.exec (not_isAdmin_of_mayCall ho hc)) hs
  · exact fun s t hs => hs
  · exact hops
  · exact h

theorem DisabledIn.disabled (h : DisabledIn cfg init acts u)
    (hops : ∀ o, .inl o ∈ acts → isAccountOp o) :
    Disabled u ((voxServer cfg).after init acts).db := by
  obtain ⟨pre, now, post, rfl, hok⟩ := h
  rw [System.after_append]
  have hpost : ∀ o, .inl o ∈ post → isAccountOp o :=
    fun o ho => hops o (List.mem_append_right _ (List.mem_cons_of_mem _ ho))
  exact (disabled_of_disableUser hok).after post hpost

/-- A run of account operations returns no tokens for a disabled user exactly if no refresh of it
redeems a session that the user has kept. -/
theorem no_tokens_iff_none_redeemed (cfg : ServerConfig) (init : Server) (hinit : init.db.Valid)
    (acts : List (Op ⊕ Timestamp)) (hops : ∀ o, .inl o ∈ acts → isAccountOp o) :
    (∀ pre o post u, acts = pre ++ .inl o :: post → DisabledIn cfg init pre u →
      ¬ ReturnsTokens cfg u o ((voxServer cfg).after init pre)) ↔
    (∀ pre o post u, acts = pre ++ .inl o :: post → DisabledIn cfg init pre u →
      ¬ redeems cfg u ((voxServer cfg).after init pre) o) := by
  have hstep : ∀ pre o post u, acts = pre ++ .inl o :: post → DisabledIn cfg init pre u →
      (ReturnsTokens cfg u o ((voxServer cfg).after init pre) ↔
        redeems cfg u ((voxServer cfg).after init pre) o) := by
    rintro pre o post u rfl hu
    have hpre : ∀ o', .inl o' ∈ pre → isAccountOp o' :=
      fun o' ho' => hops o' (List.mem_append_left _ ho')
    exact returnsTokens_iff (Op.valid_after cfg hinit pre) (hu.disabled hpre) (hops o (by simp))
  constructor
  · intro h pre o post u hacts hu
    rw [← hstep pre o post u hacts hu]
    exact h pre o post u hacts hu
  · intro h pre o post u hacts hu
    rw [hstep pre o post u hacts hu]
    exact h pre o post u hacts hu

end Runs

def registerThenDisable : List (Op ⊕ Timestamp) :=
  [.inl (.register ⟨"alice", "p", "d", "", "k", "k", "k", "w", "w", "w"⟩ (some "s") "a" "d"
    ⟨"t", "r", "s"⟩), .inl (.single (.users (.disableUser "a" 0)))]

/-- Logging in does not help her. -/
theorem alice_refused :
    let login := Op.login ⟨"alice", "p", "d", "", "k", "k", "k"⟩ "d" ⟨"t'", "r'", "s'"⟩
    ∀ pre o post u, registerThenDisable ++ [.inl login] = pre ++ .inl o :: post →
      DisabledIn default {} pre u →
        ¬ ReturnsTokens default u o ((voxServer default).after {} pre) := by
  intro login
  refine (no_tokens_iff_none_redeemed default {} (by decide)
    (registerThenDisable ++ [.inl login]) ?_).mpr ?_
  · simp [registerThenDisable, isAccountOp, login]
  · intro pre o post u hacts _
    have ho : .inl o ∈ registerThenDisable ++ [.inl login] := by rw [hacts]; simp
    simp only [registerThenDisable, login, List.cons_append, List.nil_append, List.mem_cons,
      Sum.inl.injEq, List.not_mem_nil, or_false] at ho
    rcases ho with rfl | rfl | rfl
    all_goals simp [redeems]

/-- The session from before is refreshed all the same. -/
theorem disabled_and_refreshed :
    DisabledIn default {} registerThenDisable "a" ∧
    ReturnsTokens default "a" (.refresh ⟨"r", "d"⟩ ⟨"t'", "r'", "s'"⟩)
      ((voxServer default).after {} registerThenDisable) := by
  constructor
  · exact ⟨[_], 0, [], rfl, by decide⟩
  · exact ⟨⟨"t'", "r'"⟩, rfl, _, rfl, rfl⟩

end VoxServer.Accounts
