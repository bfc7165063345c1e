import VoxServer.Net.Permitted
import VoxServer.Sessions.Lives

/-! # Where sessions come from

A session that is in force goes back, by refreshes on the same device, to a request that
has identified the user by registering or by the password, whatever requests run in between.
-/

namespace VoxServer.Sessions

open Interleaving Http SessionRepository

section Issued

variable (cfg : ServerConfig) (init : Server) (ops : ℕ → Option NetOp)

/-- How a session was given out by the requests of a trace. Each one but those at the start has the
tokens that a request drew, and is for a user that this request has identified or for the user and
the device of a session given out before, of which the request has presented the refresh token. -/
inductive Issued (tr : List Ev) : SessionRecord → Prop
  | start {r : SessionRecord} (h : r ∈ init.db.sessions) : Issued tr r
  | signIn {i : ℕ} {req : IncomingRequest} {draws : Draws} {u : UserId} (d : DeviceId)
      (now : Timestamp) (hop : ops i = some (.http req draws))
      (h : Identified cfg req draws (localTrace i tr) u) :
      Issued tr (TokenManager.newSession cfg u d now draws.fresh)
  | refresh {i : ℕ} {req : IncomingRequest} {draws : Draws} {o : List (String × Json)}
      {old : SessionRecord} (now : Timestamp) (hop : ops i = some (.http req draws))
      (ho : HasBody cfg req o)
      (hfound : Sometime (fun s => findByRefreshToken
        (TokenManager.hashToken cfg (jsonField o "refresh_token")) s.db = some old)
        (localTrace i tr)) (hold : Issued tr old) :
      Issued tr (TokenManager.newSession cfg old.userId old.deviceId now draws.fresh)

variable {cfg init ops}

theorem Issued.append {tr : List Ev} {r : SessionRecord} (h : Issued cfg init ops tr r)
    (tr' : List Ev) : Issued cfg init ops (tr ++ tr') r := by
  have hsub := fun i => localTrace_subset_append i tr tr'
  induction h with
  | start h => exact .start h
  | signIn d now hop h => exact .signIn d now hop (.stable (hsub _) h)
  | refresh now hop ho hfound _ ih => exact .refresh now hop ho (.stable (hsub _) hfound) ih

variable (cfg init ops)

/-- All sessions in force were given out. -/
def AllIssued (tr : List Ev) (s : Server) : Prop :=
  ∀ r ∈ s.db.sessions, r.Active → Issued cfg init ops tr r

end Issued

section Step

variable {cfg : ServerConfig} {init : Server} {ops : ℕ → Option NetOp} {tr : List Ev}

theorem created?_eq_some {i : ℕ} {c : Call} {s : Server} {r : SessionRecord}
    (h : created? ⟨i, c, s⟩ = some r) :
    ∃ row, c = .sessions (.createSession row) ∧ r = { row with revokedAt := none } := by
  unfold created? at h
  split at h
  · rename_i row hcall
    split at h
    · exact ⟨row, hcall, (Option.some.inj h).symm⟩
    · cases h
  · cases h

theorem issued_of_permitted {i : ℕ} {req : IncomingRequest} {draws : Draws} {row : SessionRecord}
    (hop : ops i = some (.http req draws)) (htr : ∀ ev ∈ tr, AllIssued cfg init ops tr ev.pre)
    (h : Permitted cfg req draws (localTrace i tr) (.sessions (.createSession row))) :
    Issued cfg init ops tr { row with revokedAt := none } := by
  generalize hes : localTrace i tr = es at h
  cases h with
  | quiet hc => cases hc
  | acts hes' hsess h => cases h with | quiet hc => cases hc
  | @enters es₁ es₂ _ hes' h =>
    have hsub : es₂ ⊆ localTrace i tr := by
      rw [hes, hes']
      exact List.subset_append_right _ _
    cases h with
    | quiet hc => cases hc
    | @createSession u d now h =>
      change Issued cfg init ops tr (TokenManager.newSession cfg u d now draws.fresh)
      cases h with
      | identified h => exact .signIn d now hop (.stable hsub h)
      | @refreshToken o old ho hfound _ hdevice =>
        obtain ⟨ev, hev, hfind⟩ := hfound
        obtain ⟨hmem, -, hactive⟩ := findByRefreshToken_some hfind
        have hold := htr ev (mem_of_mem_localTrace (hsub hev)).1 old hmem hactive
        rw [← hdevice]
        exact .refresh now hop ho ⟨ev, hsub hev, hfind⟩ hold

end Step

/-- In every run, and before every call of it, the sessions in force were given out by requests of
the run. -/
theorem allIssued_run (cfg : ServerConfig) (init : Server) (acts : List NetAct) :
    AllIssued cfg init (opAt (serveHttp cfg init acts)) (serveHttp cfg init acts).trace
        (serveHttp cfg init acts).state ∧
      Always (fun tr ev => AllIssued cfg init (opAt (serveHttp cfg init acts)) tr ev.pre)
        (serveHttp cfg init acts).trace := by
  -- a refresh looks a session up in an earlier state, so the invariant is about all of them
  have hinv := (httpServer cfg).always_invariant (permitted_run cfg init acts)
    (I := fun tr s => AllIssued cfg init (opAt (serveHttp cfg init acts)) tr s ∧
      ∀ ev ∈ tr, AllIssued cfg init (opAt (serveHttp cfg init acts)) tr ev.pre)
    ⟨fun r hr _ => .start hr, by simp⟩ ?_ (fun _ _ _ h => h)
  · exact ⟨hinv.1.1, hinv.2.imp fun _ _ h => h.1⟩
  · rintro tr s i c ⟨o, hop, hperm⟩ ⟨hs, htr⟩
    constructor
    · intro r hr hactive
      rcases mem_exec_active (i := i) cfg hactive hr with ⟨hold, -⟩ | hnew
      · exact (hs r hold hactive).append _
      · obtain ⟨row, rfl, rfl⟩ := created?_eq_some hnew
        cases o with
        | http req draws => exact (issued_of_permitted hop htr hperm).append _
        | _ => cases housekeeping_of_permits (by simp) hperm
    · intro ev hev r hr hactive
      rcases List.mem_append.mp hev with hev | hev
      · exact (htr ev hev r hr hactive).append _
      · rw [List.mem_singleton.mp hev] at hr
        exact (hs r hr hactive).append _

theorem issued_of_signedIn (cfg : ServerConfig) (init : Server) (acts : List NetAct) :
    Always (fun tr ev => ∀ req sess, SignedIn cfg req sess (localTrace ev.tid tr) →
      Issued cfg init (opAt (serveHttp cfg init acts)) tr sess)
      (serveHttp cfg init acts).trace := by
  refine always_of_forall fun tr ev tr' htr req sess hsess => ?_
  obtain ⟨token, -, hvalid⟩ := hsess
  obtain ⟨ev', hev', hfound⟩ := hvalid.found
  obtain ⟨hmem, -, hactive⟩ := findByAccessToken_some hfound
  -- the session was looked up in the state before an earlier call of the request
  obtain ⟨tr₁, tr₂, rfl⟩ := List.append_of_mem (mem_of_mem_localTrace hev').1
  have hissued := (allIssued_run cfg init acts).2
  rw [htr, List.append_assoc, List.cons_append] at hissued
  exact (hissued.at sess hmem hactive).append _

theorem Issued.identified {cfg : ServerConfig} {init : Server} {ops : ℕ → Option NetOp}
    {tr : List Ev} {r : SessionRecord} (h : Issued cfg init ops tr r)
    (hempty : init.db.sessions = []) :
    ∃ i req draws, ops i = some (.http req draws) ∧
      Identified cfg req draws (localTrace i tr) r.userId := by
  induction h with
  | start h =>
    rw [hempty] at h
    cases h
  | signIn d now hop h => exact ⟨_, _, _, hop, h⟩
  | refresh now hop ho hfound hold ih => exact ih

/-- In every run from an empty table of sessions, a request is signed in for a user only after a
request of the run has identified that user by registering or by the password, however often the
session was refreshed since. -/
theorem signed_in_user_identified (cfg : ServerConfig) (init : Server) (acts : List NetAct)
    (hempty : init.db.sessions = []) :
    Always (fun tr ev => ∀ req sess, SignedIn cfg req sess (localTrace ev.tid tr) →
      ∃ i req' draws, opAt (serveHttp cfg init acts) i = some (.http req' draws) ∧
        Identified cfg req' draws (localTrace i tr) sess.userId)
      (serveHttp cfg init acts).trace :=
  (issued_of_signedIn cfg init acts).imp fun _ _ h req sess hsess =>
    (h req sess hsess).identified hempty

section Example

def joinBody : String :=
  "\x7b\"username\":\"a\",\"password_derived_value\":\"p\",\"device_id\":\"d\"," ++
    "\"identity_key_public\":\"k\",\"signed_prekey_public\":\"k\"," ++
    "\"signed_prekey_signature\":\"k\",\"wrapped_sync_key\":\"k\"," ++
    "\"sync_wrap_salt\":\"k\",\"sync_wrap_params\":\"k\"\x7d"

def renewBody : String := "\x7b\"refresh_token\":\"r\",\"device_id\":\"d\"\x7d"

def joining : ServerConfig := .withBodies
  [(joinBody, .obj [("username", .str "a"), ("password_derived_value", .str "p"),
    ("device_id", .str "d"), ("identity_key_public", .str "k"), ("signed_prekey_public", .str "k"),
    ("signed_prekey_signature", .str "k"), ("wrapped_sync_key", .str "k"),
    ("sync_wrap_salt", .str "k"), ("sync_wrap_params", .str "k")]),
   (renewBody, .obj [("refresh_token", .str "r"), ("device_id", .str "d")])]

/-- Somebody registers, refreshes the tokens, and lists the conversations with the new one. -/
def joinAndRenew : List NetAct :=
  .spawn (.http { method := .post, target := "/v1/register", body := joinBody, version := 11 }
    { salt := some "", uuid := "u", fresh := ⟨"t", "r", "s"⟩ }) :: List.replicate 5 (.run 0) ++
  .spawn (.http { method := .post, target := "/v1/refresh", body := renewBody, version := 11 }
    { fresh := ⟨"t'", "r'", "s'"⟩ }) :: List.replicate 5 (.run 1) ++
  .spawn (.http { method := .get, target := "/v1/conversations", body := "", version := 11
                  authorization := some "Bearer t'" } {}) :: List.replicate 3 (.run 2)

set_option maxRecDepth 4000 in
/-- The list is for the user who registered. -/
theorem renewed_user_identified :
    ∃ i req draws, opAt (serveHttp joining {} joinAndRenew) i = some (.http req draws) ∧
      Identified joining req draws
        (localTrace i ((serveHttp joining {} joinAndRenew).trace.take 12)) "u" := by
  have hlist := (signed_in_user_identified joining {} joinAndRenew rfl).getElem? (k := 12) rfl
  exact hlist { method := .get, target := "/v1/conversations", body := "", version := 11
                authorization := some "Bearer t'" }
    ⟨"s'", "u", "d", "t'", "r'", 900, 2592000, 0, none⟩
    ⟨"t'", by decide, by decide, by decide⟩

end Example

end VoxServer.Sessions
