import VoxServer.Net.SessionWrites

/-! # Requests write only what they may

Registration, login and refresh, which need no session, and then whole requests: whatever a
request does in any run of the server, something that it found out before allows it.
-/

namespace VoxServer.Http

open Interleaving Prog

variable {cfg : ServerConfig} {req : IncomingRequest} {draws : Draws}

section Public

variable {es : List Ev}

theorem speaksFor_created {r : UserRecord} (d : DeviceId) {i : ℕ} {s : Server}
    (hid : r.userId = draws.uuid) (h : (UserRepository.createUser r s.db).1 = .ok ()) :
    SpeaksFor cfg req draws (es ++ [⟨i, .users (.createUser r), s⟩]) r.userId d :=
  .identified (.registered ⟨_, List.mem_append_right _ List.mem_cons_self, rfl, h⟩ hid)

theorem enters_issueTokens {u : UserId} {d : DeviceId} {now : Timestamp}
    (h : SpeaksFor cfg req draws es u d) :
    Does cfg (Enters cfg req draws) (fun es _ => SpeaksFor cfg req draws es u d)
      (TokenManager.issueTokens cfg u d now draws.fresh) es := by
  apply does_ask_keep SpeaksFor.stable h (.createSession h)
  intro es s h
  split <;> exact h

theorem enters_register {o : List (String × Json)} (ho : HasBody cfg req o) :
    Does cfg (Enters cfg req draws) (fun _ _ => True)
      (AuthService.register cfg (registerRequest cfg o) draws.salt draws.uuid draws.deviceUuid
        draws.fresh) es := by
  unfold AuthService.register
  split
  · trivial
  split
  · trivial
  split
  · trivial
  apply does_ask_bind (.quiet rfl)
  intro i s
  split
  · trivial
  split
  · trivial
  rename_i hashed hhash
  apply does_ask_bind (.quiet rfl)
  intro j s₁
  apply does_ask_bind (.createUser ho rfl hhash rfl rfl)
  intro k s₂
  split
  · trivial
  rename_i hdone
  let device := AuthService.chooseDeviceId (registerRequest cfg o).deviceId draws.deviceUuid
  apply does_ask_keep SpeaksFor.stable (speaksFor_created device rfl hdone)
    (.registerDevice (speaksFor_created device rfl hdone))
  intro es s hspeaks
  split
  · trivial
  refine (enters_issueTokens hspeaks).bind fun es r _ => ?_
  split <;> trivial

theorem enters_enterDevice {request : LoginRequest} {u : UserId} {d : DeviceId} {now : Timestamp}
    (h : SpeaksFor cfg req draws es u d) :
    Does cfg (Enters cfg req draws) (fun es _ => SpeaksFor cfg req draws es u d)
      (AuthService.enterDevice request u d now) es := by
  apply does_ask_keep SpeaksFor.stable h (.quiet rfl)
  intro es s h
  split
  · split
    · exact h
    apply does_ask_keep SpeaksFor.stable h (.registerDevice h)
    intro es s h
    split <;> exact h
  · apply does_ask_keep SpeaksFor.stable h (.updateLastSeen h)
    intro es s h
    split <;> exact h

theorem enters_login {o : List (String × Json)} (ho : HasBody cfg req o) :
    Does cfg (Enters cfg req draws) (fun _ _ => True)
      (AuthService.login cfg (loginRequest o) draws.deviceUuid draws.fresh) es := by
  apply does_ask_bind (.quiet rfl)
  intro i s
  split
  swap
  · trivial
  rename_i user huser
  split
  · trivial
  rename_i henabled
  split
  · trivial
  rename_i hverified
  rw [Bool.not_eq_true, Bool.not_eq_false'] at hverified
  have hspeaks : SpeaksFor cfg req draws
      (es ++ [⟨i, .users (.findByUsername (loginRequest o).username), s⟩]) user.userId
      (AuthService.chooseDeviceId (loginRequest o).deviceId draws.deviceUuid) :=
    .identified (.password ho (sometime_snoc huser) (by simpa using henabled) hverified)
  apply does_ask_keep SpeaksFor.stable hspeaks (.quiet rfl)
  intro es s hspeaks
  refine (enters_enterDevice hspeaks).bind fun es r hspeaks => ?_
  split
  · trivial
  refine (enters_issueTokens hspeaks).bind fun es r _ => ?_
  split <;> trivial

theorem enters_refreshTokens {o : List (String × Json)} {now : Timestamp}
    (ho : HasBody cfg req o) (hnow : Sometime (fun s => s.clock = now) es) :
    Does cfg (Enters cfg req draws)
      (fun es r => ∀ result, r = .ok result →
        SpeaksFor cfg req draws es result.userId (jsonField o "device_id"))
      (TokenManager.refreshTokens cfg (jsonField o "refresh_token") (jsonField o "device_id") now
        draws.fresh) es := by
  apply does_ask_bind (.quiet rfl)
  intro i s
  split
  swap
  · exact nofun
  rename_i old hold
  split
  · exact nofun
  rename_i hunexpired
  split
  · exact nofun
  rename_i hdevice
  have hfound : Sometime (fun s => SessionRepository.findByRefreshToken
      (TokenManager.hashToken cfg (jsonField o "refresh_token")) s.db = some old)
      (es ++ [⟨i, .sessions (.findByRefreshToken
        (TokenManager.hashToken cfg (jsonField o "refresh_token"))), s⟩]) := sometime_snoc hold
  have hspeaks : SpeaksFor cfg req draws (es ++ [⟨i, .sessions (.findByRefreshToken
      (TokenManager.hashToken cfg (jsonField o "refresh_token"))), s⟩]) old.userId
      (jsonField o "device_id") := by
    obtain ⟨ev, hev, rfl⟩ := hnow
    exact .refreshToken ho hfound ⟨ev, List.mem_append_left _ hev, not_le.mp hunexpired⟩
      (not_not.mp hdevice)
  apply does_ask_keep SpeaksFor.stable hspeaks (.rotate ho hfound hspeaks)
  intro es s hspeaks
  split
  · exact nofun
  refine (enters_issueTokens hspeaks).bind fun es r hspeaks => ?_
  split
  · exact nofun
  · rintro _ ⟨⟩
    exact hspeaks

theorem enters_refresh {o : List (String × Json)} (ho : HasBody cfg req o) :
    Does cfg (Enters cfg req draws) (fun _ _ => True)
      (AuthService.refresh cfg (refreshRequest o) draws.fresh) es := by
  apply does_ask_bind (.quiet rfl)
  intro i s
  refine (enters_refreshTokens ho (sometime_snoc rfl)).bind fun es r hspeaks => ?_
  cases r with
  | error e => trivial
  | ok result =>
    apply does_ask_bind (.updateLastSeen (hspeaks result rfl))
    intro j s₁
    split <;> trivial

theorem enters_tryPublicAuth (r : PublicRoute) :
    Does cfg (Enters cfg req draws) (fun _ _ => True) (tryPublicAuth cfg draws req r) es := by
  cases r with
  | health => trivial
  | register =>
    apply does_withBody
    intro o ho
    exact (enters_register ho).bind fun _ _ _ => trivial
  | login =>
    apply does_withBody
    intro o ho
    exact (enters_login ho).bind fun _ _ _ => trivial
  | refresh =>
    apply does_withBody
    intro o ho
    exact (enters_refresh ho).bind fun _ _ _ => trivial

end Public

section Requests

variable {es : List Ev}

theorem does_validateAccessToken {K : List Ev → Call → Prop} (hK : ∀ es c, c.reads → K es c)
    {token : String} {now : Timestamp} (hnow : Sometime (fun s => s.clock = now) es) :
    Does cfg K (fun es r => ∀ sess, r = .ok sess → ValidToken cfg token sess es)
      (TokenManager.validateAccessToken cfg token now) es := by
  apply does_ask_bind (hK _ _ rfl)
  intro i s
  split
  swap
  · exact nofun
  rename_i found hfound
  split
  · exact nofun
  rename_i hunexpired
  rintro sess ⟨⟩
  obtain ⟨ev, hev, rfl⟩ := hnow
  exact ⟨sometime_snoc hfound, ev, List.mem_append_left _ hev, not_le.mp hunexpired⟩

theorem permitted_authenticate :
    Does cfg (Permitted cfg req draws)
      (fun es session => ∀ sess, session = some sess → SignedIn cfg req sess es)
      (authenticate cfg req) [] := by
  unfold authenticate
  split
  · exact nofun
  rename_i token htoken
  apply does_ask_bind (.quiet rfl)
  intro i s
  refine (does_validateAccessToken (fun _ _ => .quiet) (sometime_snoc rfl)).bind fun es r hr => ?_
  cases r with
  | error e => exact nofun
  | ok found =>
    rintro sess ⟨⟩
    exact ⟨token, htoken, hr _ rfl⟩

theorem adminRoute_eq_some {path : String} {r : AdminRoute} (h : adminRoute cfg req path = some r) :
    cfg.adminToken ≠ "" ∧ req.xAdminToken = some cfg.adminToken := by
  unfold adminRoute at h
  split at h
  · cases h
  · rename_i htoken
    rwa [not_or, not_not] at htoken

theorem permitted_dispatchHttp {session : Option SessionRecord}
    (hsession : ∀ sess, session = some sess → SignedIn cfg req sess es) :
    Does cfg (Permitted cfg req draws) (fun _ _ => True)
      (dispatchHttp cfg draws req session) es := by
  unfold dispatchHttp
  dsimp only
  split
  · trivial
  split
  · split
    · trivial
    · exact (enters_tryPublicAuth _).frame fun es' c h => .enters rfl h
  split
  · rename_i r hr
    obtain ⟨hset, htoken⟩ := adminRoute_eq_some hr
    cases r with
    | stats => exact does_ask_bind (.quiet rfl) fun _ _ => trivial
    | deleteUser u =>
      have hdelete : Does cfg (Permitted cfg req draws) (fun _ _ => True)
          (Handlers.deleteUser u) es := by
        apply does_ask_bind (.quiet rfl)
        intro i s
        split
        · exact does_ask (.deleteUser hset htoken)
        · trivial
      exact hdelete.bind fun _ _ _ => trivial
  split
  · split <;> trivial
  split
  · trivial
  · exact acts_handleAuthenticated.frame fun es' c h => .acts rfl (hsession _ rfl) h

theorem permitted_serveRequest :
    Does cfg (Permitted cfg req draws) (fun _ _ => True) (serveRequest cfg draws req) [] := by
  refine permitted_authenticate.bind fun es session hsession => ?_
  exact (permitted_dispatchHttp hsession).bind fun _ _ _ => trivial

end Requests

section Runs

def purges : Call → Bool
  | .envelopes (.deleteExpired _) => true
  | .attachments (.deleteExpired _) => true
  | .blobs (.remove _) => true
  | c => c.reads

/-- What the server does besides serving requests: connections come and go, and what has expired
is purged. -/
def housekeeping : Call → Bool
  | .wsPush _ => true
  | c => purges c

theorem housekeeping_of_purges {c : Call} (h : purges c) : housekeeping c := by
  unfold housekeeping
  split
  · rfl
  · exact h

theorem housekeeping_of_reads {c : Call} (h : c.reads) : housekeeping c := by
  apply housekeeping_of_purges
  unfold purges
  split
  case h_4 => exact h
  all_goals rfl

/-- The calls of a connection that authenticates, which registers for the device of its token. -/
inductive Connects (cfg : ServerConfig) (token : String) (n : ℕ) (es : List Ev) : Call → Prop
  | quiet {c : Call} (hc : c.reads) : Connects cfg token n es c
  | register {sess : SessionRecord} (h : ValidToken cfg token sess es) :
      Connects cfg token n es (.wsPush (.register (deviceScopeKey sess.userId sess.deviceId) n))

/-- The calls that an operation may make after the calls that it has made. -/
def NetOp.Permits (cfg : ServerConfig) : NetOp → List Ev → Call → Prop
  | .http req draws, es, c => Permitted cfg req draws es c
  | .connect token n, es, c => Connects cfg token n es c
  | .disconnect u d, _, c => c = .wsPush (.unregister (deviceScopeKey u d))
  | .maintenance, _, c => purges c

theorem housekeeping_of_permits {o : NetOp} {es : List Ev} {c : Call}
    (ho : ∀ req draws, o ≠ .http req draws) (h : o.Permits cfg es c) : housekeeping c := by
  cases o with
  | http req draws => exact absurd rfl (ho req draws)
  | connect token n =>
    cases h with
    | quiet hc => exact housekeeping_of_reads hc
    | register => rfl
  | disconnect u d => cases h; rfl
  | maintenance => exact housekeeping_of_purges h

theorem registration_of_permits {o : NetOp} {es : List Ev} {r : UserRecord}
    (h : o.Permits cfg es (.users (.createUser r))) :
    ∃ req draws body hashed, o = .http req draws ∧ HasBody cfg req body ∧
      r.userId = draws.uuid ∧ PasswordHasher.hash cfg draws.salt
        (jsonField body "password_derived_value") = .ok hashed ∧
      r.passwordSalt = hashed.salt ∧ r.passwordVerifier = hashed.verifier := by
  cases o with
  | http req draws =>
    cases h with
    | quiet hc => cases hc
    | acts hes hsess h => cases h with | quiet hc => cases hc
    | enters hes h =>
      cases h with
      | quiet hc => cases hc
      | createUser ho hid hhash hs hv => exact ⟨req, draws, _, _, rfl, ho, hid, hhash, hs, hv⟩
  | _ => cases housekeeping_of_permits (by simp) h

theorem only_deleteExpired : AttachmentService.deleteExpired.Only fun c => purges c := by
  refine only_ask_bind.mpr ⟨rfl, fun now => only_ask_bind.mpr ⟨rfl, fun expired => ?_⟩⟩
  have hblobs : (AttachmentService.removeBlobs expired).Only fun c => purges c := by
    induction expired with
    | nil => trivial
    | cons a as ih => exact only_ask_bind.mpr ⟨rfl, fun _ => ih⟩
  exact hblobs.bind fun _ => only_ask.mpr rfl

theorem connects_connect (token : String) (n : ℕ) :
    Does cfg (Connects cfg token n) (fun _ _ => True) (Handlers.connect cfg token n) [] := by
  apply does_ask_bind (.quiet rfl)
  intro i s
  refine (does_validateAccessToken (fun _ _ => .quiet) (sometime_snoc rfl)).bind fun es r hr => ?_
  split
  · trivial
  · rename_i sess
    exact does_ask_bind (.register (hr sess rfl)) fun _ _ => trivial

theorem purges_maintenance : (NetOp.maintenance.code cfg).Only fun c => purges c := by
  refine only_ask_bind.mpr ⟨rfl, fun now => only_ask_bind.mpr ⟨rfl, fun _ => ?_⟩⟩
  exact only_deleteExpired.bind fun _ => trivial

theorem NetOp.does (o : NetOp) : Does cfg (o.Permits cfg) (fun _ _ => True) (o.code cfg) [] := by
  cases o with
  | http req draws => exact permitted_serveRequest
  | connect token n => exact connects_connect token n
  | disconnect u d => exact does_ask rfl
  | maintenance => exact does_of_only_always purges_maintenance fun _ _ h => h

def opAt (run : NetRun) (i : ℕ) : Option NetOp := run.threads[i]?.map (·.op)

theorem spawn_of_opAt {cfg : ServerConfig} {init : Server} {acts : List NetAct} {i : ℕ} {o : NetOp}
    (h : opAt (serveHttp cfg init acts) i = some o) : .spawn o ∈ acts := by
  obtain ⟨t, ht, rfl⟩ := Option.map_eq_some_iff.mp h
  exact (httpServer cfg).op_spawned (List.mem_of_getElem? ht)

theorem permitted_run (cfg : ServerConfig) (init : Server) (acts : List NetAct) :
    Always (fun tr ev => ∃ o, opAt (serveHttp cfg init acts) ev.tid = some o ∧
      o.Permits cfg (localTrace ev.tid tr) ev.call) (serveHttp cfg init acts).trace := by
  refine Always.imp ((httpServer cfg).always_owner (J := fun _ => True) (fun _ _ => trivial)
    fun o _ => o.does) ?_
  rintro tr ev ⟨t, ht, hperm⟩
  exact ⟨t.op, congrArg (Option.map _) ht, hperm⟩

end Runs

end VoxServer.Http
