import VoxServer.Sessions.Lives

/-! # Revoked devices stay logged out

Deleting a device revokes the device and then its sessions. The device stays
logged out as long as no session is created for it after that: login and refresh
do not look at the revocation.
-/

namespace VoxServer.Sessions

open Interleaving Prog SessionRepository

/-- Whether a call revokes the sessions of the device while the device itself is revoked. -/
def sweeps (u : UserId) (d : DeviceId) (ev : Ev) : Bool :=
  match ev.call with
  | .sessions (.revokeAllForDevice u' d' _) => u' = u ∧ d' = d ∧ ev.pre.db.RevokedDevice (u, d)
  | _ => false

/-- A session of the device is created only before such a call. -/
def CreatesBeforeSweep (u : UserId) (d : DeviceId) (tr : List Ev) (ev : Ev) : Prop :=
  ∀ r ∈ created? ev, r.userId = u → r.deviceId = d → ¬ tr.any (sweeps u d)

instance (u : UserId) (d : DeviceId) (tr : List Ev) (ev : Ev) :
    Decidable (CreatesBeforeSweep u d tr ev) :=
  inferInstanceAs (Decidable (∀ r ∈ created? ev, _))

theorem sweeps_iff {u : UserId} {d : DeviceId} {ev : Ev} : sweeps u d ev ↔
    ∃ now, ev.call = .sessions (.revokeAllForDevice u d now) ∧ ev.pre.db.RevokedDevice (u, d) := by
  unfold sweeps
  split
  · rename_i hc
    simp only [hc, decide_eq_true_eq]
    constructor
    · rintro ⟨rfl, rfl, h⟩
      exact ⟨_, rfl, h⟩
    · rintro ⟨now, h, hr⟩
      cases h
      exact ⟨rfl, rfl, hr⟩
  · rename_i hno
    simp only [Bool.false_eq_true, false_iff]
    rintro ⟨now, h, -⟩
    exact hno _ _ _ h

section Device

variable (cfg : ServerConfig) {u : UserId} {d : DeviceId}

theorem follows_deleteDevice_ok {sd : DeviceId} {es : List Ev}
    (h : Follows (Call.exec cfg) (Handlers.deleteDevice cfg u sd d) es (.ret (.ok ()))) :
    ∃ es₁ i₁ now s₁ i₂ s₂ es₂, es = es₁ ++ ⟨i₁, .devices (.revokeDevice u d now), s₁⟩ ::
        ⟨i₂, .sessions (.revokeAllForDevice u d now), s₂⟩ :: es₂ ∧
      (DeviceRepository.revokeDevice u d now s₁.db).1 = .ok () := by
  unfold Handlers.deleteDevice at h
  split at h
  · simp at h
  · rw [perform_bind, follows_call_ret] at h
    obtain ⟨i₁, s₁, es₁, rfl, h⟩ := h
    split at h
    · rw [perform_bind, follows_call_ret] at h
      obtain ⟨i₂, s₂, es₂, rfl, h⟩ := h
      rw [perform_bind, follows_call_ret] at h
      obtain ⟨i₃, s₃, es₃, rfl, h⟩ := h
      split at h
      · simp at h
      · rename_i hok
        rw [TokenManager.revokeAllForDevice, perform_bind, follows_call_ret] at h
        obtain ⟨i₄, s₄, es₄, rfl, -⟩ := h
        exact ⟨[_, _], i₃, _, s₃, i₄, s₄, es₄, rfl, hok⟩
    · simp at h

end Device

section Sweep

variable (cfg : ServerConfig) (init : Server) (acts : List Act) (u : UserId) (d : DeviceId)

/-- Once a call has revoked the device, the device is revoked before every later call. -/
theorem always_revoked (hadmin : ∀ ev ∈ (serve cfg init acts).trace, ¬ ev.call.isAdmin) :
    Always (fun tr ev => (∃ e ∈ tr, e.call.revokesDevice u d e.pre) →
      ev.pre.db.RevokedDevice (u, d))
      (serve cfg init acts).trace := by
  refine ((voxServer cfg).always_invariant (always_of_mem hadmin)
    (I := fun tr s => (∃ e ∈ tr, e.call.revokesDevice u d e.pre) → s.db.RevokedDevice (u, d))
    (by simp) ?_ (fun _ _ _ h => h)).2
  rintro tr s i c hadmin ih ⟨e, he, hrev⟩
  rcases List.mem_append.mp he with he | he
  · exact Call.revokedDevice_exec cfg hadmin (ih ⟨e, he, hrev⟩)
  · rw [List.mem_singleton.mp he] at hrev
    exact Call.revokedDevice_of_revokes cfg hrev

/-- Once a call has revoked the sessions of the revoked device, none of them is active. -/
theorem not_active_of_swept (hcond : Always (CreatesBeforeSweep u d) (serve cfg init acts).trace)
    (hswept : (serve cfg init acts).trace.any (sweeps u d)) :
    ∀ r ∈ (serve cfg init acts).state.db.sessions, r.userId = u → r.deviceId = d → ¬ r.Active := by
  revert hswept
  refine ((voxServer cfg).always_invariant hcond (I := fun tr s => tr.any (sweeps u d) →
      ∀ r ∈ s.db.sessions, r.userId = u → r.deviceId = d → ¬ r.Active)
    (by simp) ?_ (fun _ _ _ h => h)).1
  intro tr s i c hnew ih hswept r hr hu hd ha
  rw [List.any_append, Bool.or_eq_true] at hswept
  rcases hswept with hswept | hswept
  · rcases mem_exec_active cfg ha hr with ⟨hold, -⟩ | hcreated
    · exact ih hswept r hold hu hd ha
    · exact hnew r hcreated hu hd hswept
  · obtain ⟨now, rfl, -⟩ : ∃ now, c = _ ∧ _ := sweeps_iff.mp (by simpa using hswept)
    rcases mem_exec_active (i := i) cfg ha hr with ⟨-, hno⟩ | hcreated
    · exact hno (by simp [revokes, SessionCall.revokes, hu, hd])
    · simp [created?] at hcreated

end Sweep

/-- A deleted device stays logged out while no session is created for it after its sessions were
revoked: in every state after the deletion has returned success it has no active session, so none
of its tokens is found. -/
theorem deleted_device_stays_logged_out (cfg : ServerConfig) (init : Server) (acts : List Act)
    (u : UserId) (d sd : DeviceId) (i : ℕ)
    (hadmin : ∀ ev ∈ (serve cfg init acts).trace, ¬ ev.call.isAdmin)
    (hcond : Always (CreatesBeforeSweep u d) (serve cfg init acts).trace)
    (hdel : (serve cfg init acts).threads[i]? = some ⟨.deleteDevice u sd d, .ret (.ok ())⟩) :
    (∀ r ∈ (serve cfg init acts).state.db.sessions, r.userId = u → r.deviceId = d → ¬ r.Active) ∧
    ∀ hash r, findByAccessToken hash (serve cfg init acts).state.db = some r ∨
      findByRefreshToken hash (serve cfg init acts).state.db = some r →
      ¬ (r.userId = u ∧ r.deviceId = d) := by
  have hswept : (serve cfg init acts).trace.any (sweeps u d) := by
    obtain ⟨es₁, i₁, now, s₁, i₂, s₂, es₂, htr, hok⟩ :=
      follows_deleteDevice_ok cfg (((voxServer cfg).coherent_run init acts).follows i _ hdel)
    rw [← List.singleton_append, ← List.append_assoc] at htr
    obtain ⟨-, tr₁, tr₂, htr, hbefore, -⟩ := localTrace_eq_append_cons htr
    have hrev : ∃ e ∈ tr₁, e.call.revokesDevice u d e.pre := by
      have hmem : (⟨i₁, .devices (.revokeDevice u d now), s₁⟩ : Ev) ∈ localTrace i tr₁ := by
        simp [hbefore]
      exact ⟨_, (mem_of_mem_localTrace hmem).1, by simp [Call.revokesDevice, hok]⟩
    have halways := always_revoked cfg init acts u d hadmin
    rw [show (serve cfg init acts).trace = _ from htr] at halways ⊢
    exact List.any_eq_true.mpr ⟨_, by simp, sweeps_iff.mpr ⟨now, rfl, halways.at hrev⟩⟩
  have hinactive := not_active_of_swept cfg init acts u d hcond hswept
  refine ⟨hinactive, ?_⟩
  rintro hash r (hf | hf) ⟨hu, hd⟩
  · obtain ⟨hr, -, ha⟩ := findByAccessToken_some hf
    exact hinactive r hr hu hd ha
  · obtain ⟨hr, -, ha⟩ := findByRefreshToken_some hf
    exact hinactive r hr hu hd ha

def twoDevices : Server where
  db :=
    { users := [{ (default : UserRecord) with userId := "u", username := "n"
                                              passwordVerifier := "p" }]
      devices := [{ (default : DeviceRecord) with deviceId := "d", userId := "u" },
        { (default : DeviceRecord) with deviceId := "e", userId := "u" }] }

/-- The device logs in and is deleted from the other device; then the given device logs in. -/
def deleteThenLogin (deviceId : DeviceId) : List Act :=
  .spawn (.login ⟨"n", "p", "d", "", "", "", ""⟩ "" ⟨"a1", "r1", "s1"⟩) ::
    List.replicate 5 (.run 0) ++
  .spawn (.deleteDevice "u" "e" "d") :: List.replicate 5 (.run 1) ++
  .spawn (.login ⟨"n", "p", deviceId, "", "", "", ""⟩ "" ⟨"a2", "r2", "s2"⟩) ::
    List.replicate 5 (.run 2)

theorem deleteThenLogin_other_device :
    (serve default twoDevices (deleteThenLogin "e")).state.db.sessions.length = 2 ∧
    ∀ r ∈ (serve default twoDevices (deleteThenLogin "e")).state.db.sessions,
      r.userId = "u" → r.deviceId = "d" → ¬ r.Active :=
  ⟨by decide, (deleted_device_stays_logged_out default twoDevices (deleteThenLogin "e") "u" "d" "e"
    1 (by decide) (by decide) rfl).1⟩

/-- A login on the deleted device gets a new session, which is active after the deletion has
returned. -/
theorem deleteThenLogin_same_device :
    twoDevices.db.Valid ∧
    (serve default twoDevices (deleteThenLogin "d")).threads[1]? =
      some ⟨.deleteDevice "u" "e" "d", .ret (.ok ())⟩ ∧
    ∃ r ∈ (serve default twoDevices (deleteThenLogin "d")).state.db.sessions,
      r.userId = "u" ∧ r.deviceId = "d" ∧ r.Active ∧
      findByAccessToken "a2" (serve default twoDevices (deleteThenLogin "d")).state.db = some r :=
  ⟨by decide, rfl, ⟨"s2", "u", "d", "a2", "r2", 900, 2592000, 0, none⟩, by decide, rfl, rfl, rfl,
    by decide⟩

end VoxServer.Sessions
