import VoxServer.Auth.PasswordHasher
import VoxServer.Sessions.Lineage

/-! # Stored passwords

The credentials of a user are always those of a password that a request has chosen for this
user, by registering or from a session of the user. The check of a login never throws on them,
and accepts exactly what Argon2id does not tell from that password.
-/

namespace VoxServer.Accounts

open Interleaving Http Argon2 Argon2.PasswordHasher

section Chosen

variable (cfg : ServerConfig) (ops : ℕ → Option NetOp)

/-- How a password was chosen for a user by the requests of a trace. -/
inductive Chosen (tr : List Ev) (u : UserId) : String → Prop
  | registered {i : ℕ} {req : IncomingRequest} {draws : Draws} {o : List (String × Json)}
      (hop : ops i = some (.http req draws)) (ho : HasBody cfg req o) (hu : draws.uuid = u) :
      Chosen tr u (jsonField o "password_derived_value")
  | changed {i : ℕ} {req : IncomingRequest} {draws : Draws} {o : List (String × Json)}
      {sess : SessionRecord} (hop : ops i = some (.http req draws)) (ho : HasBody cfg req o)
      (hsess : SignedIn cfg req sess (localTrace i tr)) (hu : sess.userId = u) :
      Chosen tr u (jsonField o "new_password_derived_value")

theorem Chosen.append {cfg : ServerConfig} {ops : ℕ → Option NetOp} {tr : List Ev} {u : UserId}
    {password : String} (h : Chosen cfg ops tr u password) (tr' : List Ev) :
    Chosen cfg ops (tr ++ tr') u password := by
  cases h with
  | registered hop ho hu => exact .registered hop ho hu
  | changed hop ho hsess hu =>
    exact .changed hop ho (.stable (localTrace_subset_append _ tr tr') hsess) hu

variable (lib : Library) (h : PasswordHasher)

/-- The credentials are what the hasher returned for a password chosen for the user. -/
def Hashed (tr : List Ev) (u : UserId) (salt verifier : String) : Prop :=
  ∃ password bytes, Chosen cfg ops tr u password ∧
    h.hash lib (some bytes) (textBytes password) = .ok ⟨salt, verifier⟩

end Chosen

def Drawn (salt : Option String) : Prop :=
  ∃ bytes : Option (Vector UInt8 kSaltLength), salt = bytes.map saltText

section Step

variable {lib : Library} {h : PasswordHasher} {base : ServerConfig} {ops : ℕ → Option NetOp}
  {tr : List Ev}

theorem hashed_of_hash {salt : Option String} {password : String} {hashed : HashResult}
    {u : UserId} (hsalt : Drawn salt)
    (hhash : VoxServer.PasswordHasher.hash (h.services lib base) salt password = .ok hashed)
    (hchosen : Chosen (h.services lib base) ops tr u password) :
    Hashed (h.services lib base) ops lib h tr u hashed.salt hashed.verifier := by
  obtain ⟨bytes, rfl⟩ := hsalt
  rw [hash_services] at hhash
  cases bytes with
  | none => cases hhash
  | some bytes => exact ⟨password, bytes, hchosen, hhash⟩

variable {i : ℕ} {req : IncomingRequest} {draws : Draws}

theorem hashed_of_createUser {o : NetOp} {r : UserRecord} (hop : ops i = some o)
    (hsalt : ∀ req draws, o = .http req draws → Drawn draws.salt)
    (hperm : o.Permits (h.services lib base) (localTrace i tr) (.users (.createUser r))) :
    Hashed (h.services lib base) ops lib h tr r.userId r.passwordSalt r.passwordVerifier := by
  obtain ⟨req, draws, body, hashed, rfl, hbody, hid, hhash, hs, hv⟩ :=
    registration_of_permits hperm
  rw [hs, hv]
  exact hashed_of_hash (hsalt req draws rfl) hhash (.registered hop hbody hid.symm)

theorem hashed_of_updatePassword {u : UserId} {salt verifier : String}
    (hop : ops i = some (.http req draws)) (hsalt : Drawn draws.salt)
    (hperm : Permitted (h.services lib base) req draws (localTrace i tr)
      (.users (.updatePasswordCredentials u salt verifier))) :
    Hashed (h.services lib base) ops lib h tr u salt verifier := by
  generalize hes : localTrace i tr = es at hperm
  cases hperm with
  | quiet hc => cases hc
  | enters hes' henters => cases henters with | quiet hc => cases hc
  | acts hes' hsess hacts =>
    cases hacts with
    | quiet hc => cases hc
    | changePassword ho hhash hold =>
      refine hashed_of_hash hsalt hhash (.changed hop ho (.stable ?_ hsess) rfl)
      rw [hes, hes']
      exact List.subset_append_left _ _

theorem hashed_exec {o : NetOp} {c : Call} {s : Server} (hop : ops i = some o)
    (hsalt : ∀ req draws, o = .http req draws → Drawn draws.salt)
    (hperm : o.Permits (h.services lib base) (localTrace i tr) c)
    (hs : ∀ r ∈ s.db.users, Hashed (h.services lib base) ops lib h tr r.userId r.passwordSalt
      r.passwordVerifier) :
    ∀ r ∈ (c.exec (h.services lib base) s).2.db.users, Hashed (h.services lib base) ops lib h tr
      r.userId r.passwordSalt r.passwordVerifier := by
  intro r hr
  cases c with
  | users a =>
    cases UserCall.origin_of_exec hr with
    | kept _ hr => exact hs r hr
    | created n hid => exact hashed_of_createUser (r := n) hop hsalt hperm
    | @disabled r₀ hr₀ now => exact hs r₀ hr₀
    | @rewrapped r₀ hr₀ b => exact hs r₀ hr₀
    | rehashed hr₀ salt verifier =>
      cases o with
      | http req draws => exact hashed_of_updatePassword hop (hsalt req draws rfl) hperm
      | _ => cases housekeeping_of_permits (by simp) hperm
  | _ => exact hs r (Call.exec_users_subset _ (by simp) hr)

end Step

/-- The byte level check against the credentials of a user throws nothing and is what the services
compute, and it accepts exactly what Argon2id does not tell from the password. -/
structure ChecksFor (lib : Library) (h : PasswordHasher) (cfg : ServerConfig) (r : UserRecord)
    (password : String) (bytes : Vector UInt8 kSaltLength) : Prop where
  agrees : ∀ q : String, h.verify lib (textBytes q) r.passwordSalt r.passwordVerifier =
    .ok (VoxServer.PasswordHasher.verify cfg q r.passwordSalt r.passwordVerifier)
  accepts_iff : ∀ q : String,
    VoxServer.PasswordHasher.verify cfg q r.passwordSalt r.passwordVerifier ↔
      h.argon2id lib (textBytes q) bytes.toList = h.argon2id lib (textBytes password) bytes.toList

theorem checksFor_of_hash {lib : Library} {h : PasswordHasher} {base : ServerConfig}
    {r : UserRecord} {password : String} {bytes : Vector UInt8 kSaltLength}
    (hhash : h.hash lib (some bytes) (textBytes password) =
      .ok ⟨r.passwordSalt, r.passwordVerifier⟩) :
    ChecksFor lib h (h.services lib base) r password bytes := by
  have hsalt : r.passwordSalt = bytesToHex bytes.toList := by
    have hresult := (hash_eq_ok_iff.mp hhash).2
    rw [HashResult.mk.injEq] at hresult
    exact hresult.1
  have hagrees : ∀ q : String, h.verify lib (textBytes q) r.passwordSalt r.passwordVerifier =
      .ok (VoxServer.PasswordHasher.verify (h.services lib base) q r.passwordSalt
        r.passwordVerifier) := by
    intro q
    rw [hsalt]
    exact h.verify_services lib base bytes.toList q r.passwordVerifier
  refine ⟨hagrees, fun q => ?_⟩
  rw [← verify_hashed_iff hhash (textBytes q), hagrees, Except.ok.injEq]

/-- In every run from an empty table of users with drawn salts, the credentials of each user are
those of a password that was chosen for this user, and are checked as such. -/
theorem stored_passwords_verify (lib : Library) (h : PasswordHasher) (base : ServerConfig)
    {cfg : ServerConfig} (hcfg : cfg = h.services lib base) (init : Server) (acts : List NetAct)
    (hempty : init.db.users = [])
    (hdrawn : ∀ req draws, .spawn (.http req draws) ∈ acts → Drawn draws.salt) :
    ∀ r ∈ (serveHttp cfg init acts).state.db.users, ∃ password bytes,
      Chosen cfg (opAt (serveHttp cfg init acts)) (serveHttp cfg init acts).trace r.userId
        password ∧ ChecksFor lib h cfg r password bytes := by
  subst hcfg
  have hinv := ((httpServer (h.services lib base)).always_invariant
    (permitted_run (h.services lib base) init acts)
    (I := fun tr s => ∀ r ∈ s.db.users, Hashed (h.services lib base)
      (opAt (serveHttp (h.services lib base) init acts)) lib h tr r.userId r.passwordSalt
      r.passwordVerifier) (by simp [hempty]) ?_ (fun _ _ _ hs => hs)).1
  · intro r hr
    obtain ⟨password, bytes, hchosen, hhash⟩ := hinv r hr
    exact ⟨password, bytes, hchosen, checksFor_of_hash hhash⟩
  · rintro tr s i c ⟨o, hop, hperm⟩ hs r hr
    have hsalt : ∀ req draws, o = .http req draws → Drawn draws.salt :=
      fun req draws ho => hdrawn req draws (spawn_of_opAt (ho ▸ hop))
    obtain ⟨password, bytes, hchosen, hhash⟩ := hashed_exec hop hsalt hperm hs r hr
    exact ⟨password, bytes, hchosen.append _, hhash⟩

section Example

/-- The body is that of a registration with the password `p`. -/
def hashingJoin : ServerConfig := ({} : PasswordHasher).services addBytes Sessions.joining

def join : List NetAct :=
  .spawn (.http { method := .post, target := "/v1/register", body := Sessions.joinBody
                  version := 11 }
    { salt := some (saltText (Vector.replicate 16 0x0a)), uuid := "u" }) ::
    List.replicate 5 (.run 0)

set_option maxRecDepth 4000 in
theorem joined_password_verifies :
    (serveHttp hashingJoin {} join).state.db.users.length = 1 ∧
      ∀ r ∈ (serveHttp hashingJoin {} join).state.db.users, ∃ password bytes,
        Chosen hashingJoin (opAt (serveHttp hashingJoin {} join))
          (serveHttp hashingJoin {} join).trace r.userId password ∧
        ChecksFor addBytes {} hashingJoin r password bytes := by
  refine ⟨by decide +kernel,
    stored_passwords_verify addBytes {} Sessions.joining rfl {} join rfl ?_⟩
  intro req draws h
  simp only [join, List.replicate, List.mem_cons, reduceCtorEq, Action.spawn.injEq,
    NetOp.http.injEq, List.not_mem_nil, or_false] at h
  obtain ⟨-, rfl⟩ := h
  exact ⟨some (Vector.replicate 16 0x0a), rfl⟩

end Example

end VoxServer.Accounts
