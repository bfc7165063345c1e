import VoxServer.Sessions.Lives

/-! # Refresh tokens are used once

A refresh token is accepted after a conditional update has revoked its session.
Sessions have distinct ids and refresh hashes over a whole run, so only one call
finds the session still active.
-/

namespace VoxServer.Sessions

open Table Interleaving Prog SessionRepository TokenManager

/-- The operation made a `RefreshTokens` call with the token, for the device and at the time, that
returned new tokens. -/
inductive Accepted (cfg : ServerConfig) (run : ServerRun) (i : ℕ) (token : String)
    (deviceId : DeviceId) (now : Timestamp) : Prop
  | refreshTokens (fresh : FreshTokens) (res : RefreshResult)
      (h : run.threads[i]? = some ⟨.refreshTokens token deviceId now fresh, .ret (.ok res)⟩)
  | refresh (fresh : FreshTokens) (q : ServerProg (Result TokenPair)) (s : Server)
      (es rest : List Ev) (res : RefreshResult)
      (h : run.threads[i]? = some ⟨.refresh ⟨token, deviceId⟩ fresh, q⟩)
      (htr : localTrace i run.trace = ⟨i, .now, s⟩ :: es ++ rest) (hnow : s.clock = now)
      (hf : Follows (Call.exec cfg) (TokenManager.refreshTokens cfg token deviceId now fresh) es
        (.ret (.ok res)))

section

variable {cfg : ServerConfig} {t : String} {d : DeviceId} {now : Timestamp}

theorem follows_refreshTokens_ok {fresh : FreshTokens} {es : List Ev} {res : RefreshResult}
    (h : Follows (Call.exec cfg) (refreshTokens cfg t d now fresh) es (.ret (.ok res))) :
    ∃ i₁ s₁ i₂ s₂ es' row,
      es = ⟨i₁, .sessions (.findByRefreshToken (hashToken cfg t)), s₁⟩ ::
        ⟨i₂, .sessions (.revokeSession row.sessionId now), s₂⟩ :: es' ∧
      findByRefreshToken (hashToken cfg t) s₁.db = some row ∧ now < row.refreshExpiresAt ∧
      row.deviceId = d ∧ (revokeSession row.sessionId now s₂.db).1 = .ok () := by
  rw [refreshTokens, perform_bind, follows_call_ret] at h
  obtain ⟨i₁, s₁, es₁, rfl, h⟩ := h
  split at h
  · rename_i row hfind
    split at h
    · simp at h
    · split at h
      · simp at h
      · rename_i hexp hdev
        rw [perform_bind, follows_call_ret] at h
        obtain ⟨i₂, s₂, es₂, rfl, h⟩ := h
        split at h
        · simp at h
        · rename_i hrev
          exact ⟨i₁, s₁, i₂, s₂, es₂, row, rfl, hfind, not_le.mp hexp, not_not.mp hdev, hrev⟩
  · simp at h

theorem Accepted.calls {init : Server} {acts : List Act} {i : ℕ}
    (h : Accepted cfg (serve cfg init acts) i t d now) :
    ∃ s₁ s₂ row, ⟨i, .sessions (.findByRefreshToken (hashToken cfg t)), s₁⟩ ∈
        (serve cfg init acts).trace ∧
      ⟨i, .sessions (.revokeSession row.sessionId now), s₂⟩ ∈ (serve cfg init acts).trace ∧
      findByRefreshToken (hashToken cfg t) s₁.db = some row ∧ now < row.refreshExpiresAt ∧
      row.deviceId = d ∧ (revokeSession row.sessionId now s₂.db).1 = .ok () := by
  obtain ⟨es, pre, rest, fresh, res, htr, hf⟩ : ∃ es pre rest fresh res,
      localTrace i (serve cfg init acts).trace = pre ++ es ++ rest ∧ Follows (Call.exec cfg)
        (TokenManager.refreshTokens cfg t d now fresh) es (.ret (.ok res)) := by
    cases h with
    | refreshTokens fresh res h =>
      exact ⟨_, [], [], fresh, res, by simp, ((voxServer cfg).coherent_run init acts).follows i _ h⟩
    | refresh fresh q s es rest res h htr hnow hf => exact ⟨es, [_], rest, fresh, res, htr, hf⟩
  obtain ⟨i₁, s₁, i₂, s₂, es', row, rfl, hrow⟩ := follows_refreshTokens_ok hf
  have hmem : ∀ ev ∈ pre ++ (⟨i₁, .sessions (.findByRefreshToken (hashToken cfg t)), s₁⟩ ::
      ⟨i₂, .sessions (.revokeSession row.sessionId now), s₂⟩ :: es') ++ rest,
      ev ∈ (serve cfg init acts).trace ∧ ev.tid = i := by
    rw [← htr]
    exact fun ev hev => mem_of_mem_localTrace hev
  obtain ⟨h₁, rfl⟩ := hmem ⟨i₁, .sessions (.findByRefreshToken (hashToken cfg t)), s₁⟩ (by simp)
  obtain ⟨h₂, rfl⟩ := hmem ⟨i₂, .sessions (.revokeSession row.sessionId now), s₂⟩ (by simp)
  exact ⟨s₁, s₂, row, h₁, h₂, hrow⟩

end

def Retires (r : SessionRecord) (ev : Ev) : Prop :=
  r ∈ ev.pre.db.sessions ∧ r.Active ∧ revokes r ev

/-- A session is not active again after a call has retired it. -/
theorem not_retired (cfg : ServerConfig) (init : Server) (acts : List Act)
    (hid : UniqueOn SessionRecord.sessionId (issued init (serve cfg init acts).trace)) :
    Always (fun tr ev => ∀ r ∈ ev.pre.db.sessions, r.Active → ∀ e ∈ tr, ¬ Retires r e)
      (serve cfg init acts).trace := by
  have hlive := (live_of_active cfg init acts).2
  refine always_of_forall fun m ev rest htr r hr ha e he hret => ?_
  rw [htr] at hlive hid
  rcases hlive.at r hr ha with ⟨-, hno⟩ | ⟨m₁, ec, m₂, rfl, hc, hno⟩
  · exact hno e he hret.2.2
  · rcases List.mem_append.mp he with he | he
    · -- The session was there before the call that created it, so its id is not new.
      obtain ⟨m₀, m₀', rfl⟩ := List.append_of_mem he
      have hmem : r ∈ issued init (m₀ ++ e :: m₀') := by
        simp only [List.append_assoc, List.cons_append] at hlive
        have hin := (hlive.at r hret.1 hret.2.1).mem_issued
        simp only [issued, List.filterMap_append, List.mem_append] at hin ⊢
        tauto
      rw [List.append_assoc, List.cons_append, issued_append_created hc, UniqueOn, List.map_append,
        List.map_cons] at hid
      exact List.disjoint_of_nodup_append hid (List.mem_map_of_mem hmem) (by simp)
    · rcases List.mem_cons.mp he with rfl | he
      · have hrev := hret.2.2
        unfold created? at hc
        unfold revokes at hrev
        split at hc
        · rename_i hcall
          simp [hcall, SessionCall.revokes] at hrev
        · cases hc
      · exact hno e he hret.2.2

theorem Accepted.retires {cfg : ServerConfig} {init : Server} {acts : List Act} {i : ℕ}
    {t : String} {d : DeviceId} {now : Timestamp} (hv : init.db.Valid)
    (hid : UniqueOn SessionRecord.sessionId (issued init (serve cfg init acts).trace))
    (h : Accepted cfg (serve cfg init acts) i t d now) :
    ∃ r s, ⟨i, .sessions (.revokeSession r.sessionId now), s⟩ ∈ (serve cfg init acts).trace ∧
      Retires r ⟨i, .sessions (.revokeSession r.sessionId now), s⟩ ∧
      r ∈ issued init (serve cfg init acts).trace ∧
      r.refreshTokenHash = hashToken cfg t ∧ r.deviceId = d ∧ now < r.refreshExpiresAt := by
  obtain ⟨s₁, s₂, row, h₁, h₂, hfind, hexp, hdev, hrev⟩ := h.calls
  obtain ⟨-, hvalid⟩ := serve_valid cfg hv acts
  obtain ⟨hmem, hhash, hact⟩ := (findByRefreshToken_eq_some (hvalid _ h₁)).mp hfind
  obtain ⟨r, hr, hrid, ha⟩ := revokeSession_ok.mp hrev
  have hrin := mem_issued_of_active cfg h₂ hr ha
  obtain rfl := hid.eq_of_mem hrin (mem_issued_of_active cfg h₁ hmem hact) hrid
  exact ⟨r, s₂, h₂, ⟨hr, ha, by simp [revokes, SessionCall.revokes]⟩, hrin, hhash, hdev, hexp⟩

/-- Refresh tokens are single-use. When sessions have distinct ids and refresh hashes, a token is
accepted at most once, for the device that it was issued for, before it expires, and by a call that
revokes its session while no call has revoked it since it was issued. -/
theorem refresh_token_single_use (cfg : ServerConfig) (init : Server) (acts : List Act)
    (hv : init.db.Valid)
    (hid : UniqueOn SessionRecord.sessionId (issued init (serve cfg init acts).trace))
    (hhash : UniqueOn SessionRecord.refreshTokenHash (issued init (serve cfg init acts).trace)) :
    (∀ i j t d d' now now', Accepted cfg (serve cfg init acts) i t d now →
      Accepted cfg (serve cfg init acts) j t d' now' → i = j) ∧
    ∀ i t d now, Accepted cfg (serve cfg init acts) i t d now →
      ∃ r ∈ issued init (serve cfg init acts).trace, r.refreshTokenHash = hashToken cfg t ∧
        r.deviceId = d ∧ now < r.refreshExpiresAt ∧
        ∃ tr₁ ev tr₂, (serve cfg init acts).trace = tr₁ ++ ev :: tr₂ ∧ ev.tid = i ∧
          ev.call = .sessions (.revokeSession r.sessionId now) ∧ Live init tr₁ r := by
  constructor
  · intro i j t d d' now now' hi hj
    obtain ⟨r, s, hev, hret, hr, ht, -⟩ := hi.retires hv hid
    obtain ⟨r', s', hev', hret', hr', ht', -⟩ := hj.retires hv hid
    obtain rfl := hhash.eq_of_mem hr hr' (ht.trans ht'.symm)
    by_contra hne
    rcases (not_retired cfg init acts hid).of_ne hev hev' (fun he => hne (congrArg Event.tid he))
      with ⟨m, hm, hno⟩ | ⟨m, hm, hno⟩
    · exact hno r hret'.1 hret'.2.1 _ hm hret
    · exact hno r hret.1 hret.2.1 _ hm hret'
  · intro i t d now hi
    obtain ⟨r, s, hev, hret, hr, ht, hdev, hexp⟩ := hi.retires hv hid
    obtain ⟨tr₁, tr₂, htr⟩ := List.append_of_mem hev
    have hlive := (live_of_active cfg init acts).2
    rw [htr] at hlive
    exact ⟨r, hr, ht, hdev, hexp, tr₁, _, tr₂, htr, rfl, rfl, hlive.at r hret.1 hret.2.1⟩

/-- Two refreshes with the same token both find the session; the second one revokes it first. -/
def racingRefreshes : List Act :=
  [.spawn (.issueTokens "u" "d" 0 ⟨"a0", "r0", "s0"⟩), .run 0,
   .spawn (.refreshTokens "r0" "d" 5 ⟨"a1", "r1", "s1"⟩),
   .spawn (.refreshTokens "r0" "d" 5 ⟨"a2", "r2", "s2"⟩),
   .run 1, .run 2, .run 2, .run 1, .run 2]

theorem racingRefreshes_single_use :
    Accepted default (serve default oneDevice racingRefreshes) 2 "r0" "d" 5 ∧
    ¬ Accepted default (serve default oneDevice racingRefreshes) 1 "r0" "d" 5 := by
  have h₂ : Accepted default (serve default oneDevice racingRefreshes) 2 "r0" "d" 5 :=
    .refreshTokens ⟨"a2", "r2", "s2"⟩ ⟨⟨"a2", "r2"⟩, "u"⟩ rfl
  refine ⟨h₂, fun h₁ => ?_⟩
  have := (refresh_token_single_use default oneDevice racingRefreshes (by decide) (by decide)
    (by decide)).1 1 2 "r0" "d" "d" 5 5 h₁ h₂
  omega

end VoxServer.Sessions
