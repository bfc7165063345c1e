import VoxServer.Server.System

/-! # Password and wrapped sync key

Changing a password writes the credentials and the wrapped sync key in two
separate calls. Both end up from the same request as long as no operation writes
its wrapped key over the one that belongs to the stored credentials.
-/

namespace VoxServer.Accounts

open Table Interleaving Prog UserRepository

def credentials (r : UserRecord) : String × String := (r.passwordSalt, r.passwordVerifier)

def wrappedKey (r : UserRecord) : String × String × String :=
  (r.wrappedSyncKey, r.syncWrapSalt, r.syncWrapParams)

section Writes

variable (u : UserId)

def credentials? (ev : Ev) : Option (String × String) :=
  match ev.call with
  | .users (.updatePasswordCredentials u' salt verifier) =>
    if u' = u then some (salt, verifier) else none
  | _ => none

def wrappedKey? (ev : Ev) : Option (String × String × String) :=
  match ev.call with
  | .users (.setSyncKeyBundle u' b) =>
    if u' = u then some (b.wrappedSyncKey, b.syncWrapSalt, b.syncWrapParams) else none
  | _ => none

def credentialsWriter (tr : List Ev) : Option ℕ :=
  (tr.filter fun ev => (credentials? u ev).isSome).getLast?.map Event.tid

/-- An operation writes its wrapped key while the stored credentials are its own, or those of an
operation that has yet to write its wrapped key. -/
def InOrder (tr : List Ev) (ev : Ev) : Prop :=
  (wrappedKey? u ev).isSome → ∀ j ∈ credentialsWriter u tr,
    j = ev.tid ∨ ∀ e ∈ tr, e.tid = j → wrappedKey? u e = none

instance (tr : List Ev) (ev : Ev) : Decidable (InOrder u tr ev) :=
  inferInstanceAs (Decidable (_ → ∀ j ∈ credentialsWriter u tr, _))

def isChangePassword : Op → Bool
  | .changePassword u' _ _ => u' = u
  | _ => false

def writesKeys (ev : Ev) : Bool := (credentials? u ev).isSome || (wrappedKey? u ev).isSome

end Writes

section Row

variable (cfg : ServerConfig) {i : ℕ} {c : Call} {s : Server} {r : UserRecord}

theorem mem_updateUser {u : UserId} {f : UserRecord → UserRecord} {db : Database}
    (h : r ∈ db.users) : (if r.userId = u then f r else r) ∈ (updateUser u f db).2.users := by
  rw [UserCall.updateUser_snd]
  exact mem_updateWhere.mpr ⟨r, h, by simp⟩

theorem mem_createUser {n : UserRecord} {db : Database} (h : r ∈ db.users) :
    r ∈ (createUser n db).2.users := by
  rcases createUser_cases n db with ⟨e, he⟩ | ⟨-, -, he⟩
  · rw [he]
    exact h
  · rw [he]
    exact List.mem_append_left _ h

theorem exec_user (ha : ¬ c.isAdmin) (hr : r ∈ s.db.users) :
    ∃ r' ∈ (c.exec cfg s).2.db.users, r'.userId = r.userId ∧
      credentials r' = (credentials? r.userId ⟨i, c, s⟩).getD (credentials r) ∧
      wrappedKey r' = (wrappedKey? r.userId ⟨i, c, s⟩).getD (wrappedKey r) := by
  by_cases hc : ∃ a, c = .users a
  · obtain ⟨a, rfl⟩ := hc
    cases a with
    | createUser n => exact ⟨r, mem_createUser hr, rfl, rfl, rfl⟩
    | disableUser u now =>
      refine ⟨_, mem_updateUser hr, ?_⟩
      split <;> exact ⟨rfl, rfl, rfl⟩
    | setSyncKeyBundle u b =>
      refine ⟨_, mem_updateUser hr, ?_⟩
      by_cases hu : r.userId = u
      · simp [credentials?, wrappedKey?, hu, credentials, wrappedKey]
      · simp [credentials?, wrappedKey?, hu, Ne.symm hu]
    | updatePasswordCredentials u salt verifier =>
      refine ⟨_, mem_updateUser hr, ?_⟩
      by_cases hu : r.userId = u
      · simp [credentials?, wrappedKey?, hu, credentials, wrappedKey]
      · simp [credentials?, wrappedKey?, hu, Ne.symm hu]
    | _ => exact ⟨r, hr, rfl, rfl, rfl⟩
  · rw [Call.exec_users cfg (not_exists.mp hc) ha]
    refine ⟨r, hr, rfl, ?_⟩
    cases c with
    | users a => exact absurd ⟨a, rfl⟩ hc
    | _ => exact ⟨rfl, rfl⟩

end Row

section Run

variable (cfg : ServerConfig) (init : Server) (acts : List Act) (u : UserId)

/-- The stored credentials and the stored wrapped key are the last ones written. -/
def HoldsLast (r₀ : UserRecord) (tr : List Ev) (db : Database) : Prop :=
  ∃ r ∈ db.users, r.userId = u ∧
    credentials r = (tr.filterMap (credentials? u)).getLast?.getD (credentials r₀) ∧
    wrappedKey r = (tr.filterMap (wrappedKey? u)).getLast?.getD (wrappedKey r₀)

theorem getLast?_filterMap_snoc {α β : Type*} (f : α → Option β) (l : List α) (a : α) (b : β) :
    ((l ++ [a]).filterMap f).getLast?.getD b = (f a).getD ((l.filterMap f).getLast?.getD b) := by
  rw [List.filterMap_append, List.getLast?_append]
  cases h : f a <;> simp [h]

theorem holdsLast_serve {r₀ : UserRecord} (hr₀ : r₀ ∈ init.db.users) (hu : r₀.userId = u)
    (hadmin : ∀ ev ∈ (serve cfg init acts).trace, ¬ ev.call.isAdmin) :
    HoldsLast u r₀ (serve cfg init acts).trace (serve cfg init acts).state.db ∧
    Always (fun tr ev => HoldsLast u r₀ tr ev.pre.db) (serve cfg init acts).trace := by
  refine (voxServer cfg).always_invariant (always_of_mem hadmin)
    (I := fun tr s => HoldsLast u r₀ tr s.db) ⟨r₀, hr₀, hu, rfl, rfl⟩ ?_ (fun _ _ _ h => h)
  rintro tr s i c hc ⟨r, hr, rfl, hcred, hkey⟩
  obtain ⟨r', hr', hid, hcred', hkey'⟩ := exec_user (i := i) cfg hc hr
  refine ⟨r', hr', hid, ?_, ?_⟩
  · rw [getLast?_filterMap_snoc, hcred', hcred]
  · rw [getLast?_filterMap_snoc, hkey', hkey]

end Run

/-- The calls of a password change that succeeds: it looks the user up, and writes the credentials
and then the wrapped key of its request. -/
structure Changes (cfg : ServerConfig) (u : UserId) (request : ChangePasswordRequest)
    (salt : Option String) (hashed : HashResult) (es : List Ev) : Prop where
  hash : PasswordHasher.hash cfg salt request.newPasswordDerivedValue = .ok hashed
  calls : ∃ e₁ e₂ e₃, es = [e₁, e₂, e₃] ∧ credentials? u e₁ = none ∧ wrappedKey? u e₁ = none ∧
    credentials? u e₂ = some (hashed.salt, hashed.verifier) ∧ wrappedKey? u e₂ = none ∧
    credentials? u e₃ = none ∧ wrappedKey? u e₃ =
      some (request.wrappedSyncKey, request.syncWrapSalt, request.syncWrapParams)

section Operation

variable {cfg : ServerConfig} {u : UserId} {request : ChangePasswordRequest}
  {salt : Option String} {hashed : HashResult} {es tr : List Ev} {i : ℕ} {e : Ev}

theorem Changes.credentials?_eq (h : Changes cfg u request salt hashed es) (he : e ∈ es)
    (hw : (credentials? u e).isSome) :
    credentials? u e = some (hashed.salt, hashed.verifier) := by
  obtain ⟨e₁, e₂, e₃, rfl, hc₁, -, hc₂, -, hc₃, -⟩ := h.calls
  simp only [List.mem_cons, List.not_mem_nil, or_false] at he
  rcases he with rfl | rfl | rfl
  · simp [hc₁] at hw
  · exact hc₂
  · simp [hc₃] at hw

theorem Changes.wrappedKey?_eq (h : Changes cfg u request salt hashed es) (he : e ∈ es)
    (hw : (wrappedKey? u e).isSome) : wrappedKey? u e =
      some (request.wrappedSyncKey, request.syncWrapSalt, request.syncWrapParams) := by
  obtain ⟨e₁, e₂, e₃, rfl, -, hk₁, -, hk₂, -, hk₃⟩ := h.calls
  simp only [List.mem_cons, List.not_mem_nil, or_false] at he
  rcases he with rfl | rfl | rfl
  · simp [hk₁] at hw
  · simp [hk₂] at hw
  · exact hk₃

theorem Changes.exists_credentials (h : Changes cfg u request salt hashed (localTrace i tr)) :
    ∃ ev ∈ tr, credentials? u ev ≠ none := by
  obtain ⟨e₁, e₂, e₃, hcalls, -, -, hc₂, -⟩ := h.calls
  exact ⟨e₂, (mem_of_mem_localTrace (i := i) (by simp [hcalls])).1, by simp [hc₂]⟩

/-- The calls of a password change that has returned, when the user exists: it has failed and
written nothing, or has made its change. -/
theorem follows_changePassword {res : Result ChangePasswordResponse}
    (h : Follows (Call.exec cfg) (AuthService.changePassword cfg u request salt) es (.ret res))
    (huser : ∀ ev ∈ es, ∃ r ∈ ev.pre.db.users, r.userId = u) :
    ((∃ e, res = .error e) ∧ ∀ ev ∈ es, credentials? u ev = none ∧ wrappedKey? u ev = none) ∨
    ∃ response hashed, res = .ok response ∧ Changes cfg u request salt hashed es := by
  rw [AuthService.changePassword, perform_bind, follows_call_ret] at h
  obtain ⟨i₁, s₁, es₁, rfl, h⟩ := h
  -- Every failure before the first write.
  have hfail : ∀ e, Follows (Call.exec cfg) (.ret (.error e)) es₁ (.ret res) →
      (∃ e, res = .error e) ∧ ∀ ev ∈ (⟨i₁, .users (.findById u), s₁⟩ : Ev) :: es₁,
        credentials? u ev = none ∧ wrappedKey? u ev = none := by
    intro e he
    obtain ⟨rfl, hres⟩ := follows_ret.mp he
    cases hres
    exact ⟨⟨e, rfl⟩, by simp [credentials?, wrappedKey?]⟩
  split at h
  · split at h
    · exact .inl (hfail _ h)
    · split at h
      · exact .inl (hfail _ h)
      · split at h
        · exact .inl (hfail _ h)
        · rename_i hashed hhash
          rw [perform_bind, follows_call_ret] at h
          obtain ⟨i₂, s₂, es₂, rfl, h⟩ := h
          split at h
          · rename_i e he
            have hex := huser _ (.tail _ (.head _))
            exact absurd (he.symm.trans (updateUser_ok hex)) nofun
          · rw [perform_bind, follows_call_ret] at h
            obtain ⟨i₃, s₃, es₃, rfl, h⟩ := h
            split at h
            · rename_i e he
              have hex := huser _ (.tail _ (.tail _ (.head _)))
              exact absurd (he.symm.trans (updateUser_ok hex)) nofun
            · obtain ⟨rfl, h⟩ := follows_ret.mp h
              cases h
              exact .inr ⟨_, hashed, rfl, hhash, _, _, _, rfl, rfl, rfl, by simp [credentials?],
                rfl, rfl, by simp [wrappedKey?]⟩
  · exact .inl (hfail _ h)

end Operation

section Order

variable {u : UserId} {tr : List Ev} {i : ℕ} {e e' e₁ e₂ e₃ : Ev}

theorem eq_tid_of_inOrder (horder : Always (InOrder u) tr)
    (hcred : (tr.filter fun ev => (credentials? u ev).isSome).getLast? = some e)
    (hkey : (tr.filter fun ev => (wrappedKey? u ev).isSome).getLast? = some e')
    (hcalls : localTrace e.tid tr = [e₁, e₂, e₃]) (he₃ : (wrappedKey? u e₃).isSome) :
    e'.tid = e.tid := by
  by_contra hne
  obtain ⟨tr₁, tr₂, rfl, hsome, hno⟩ := getLast?_filter_eq_some hkey
  -- All calls of the writer of the credentials come before the last wrapped key.
  have hsplit : localTrace e.tid tr₁ ++ localTrace e.tid tr₂ = [e₁, e₂, e₃] := by
    rw [← hcalls, localTrace, localTrace, localTrace, List.filter_append, List.filter_cons_of_neg]
    simpa using hne
  have hnil : localTrace e.tid tr₂ = [] := by
    rcases List.eq_nil_or_concat (localTrace e.tid tr₂) with h | ⟨l, x, h⟩
    · exact h
    · rw [h, List.concat_eq_append, ← List.append_assoc] at hsplit
      obtain ⟨-, hx⟩ := List.append_inj' (hsplit.trans (rfl : _ = [e₁, e₂] ++ [e₃])) rfl
      cases hx
      exact absurd he₃ (hno e₃ (mem_of_mem_localTrace (i := e.tid) (by simp [h])).1)
  rw [hnil, List.append_nil] at hsplit
  have hmem : e₃ ∈ tr₁ ∧ e₃.tid = e.tid := mem_of_mem_localTrace (by simp [hsplit])
  have hwriter : e.tid ∈ credentialsWriter u tr₁ := by
    rw [List.filter_append, List.getLast?_append, Option.or_eq_some_iff] at hcred
    rcases hcred with h | ⟨-, h⟩
    · obtain ⟨hin, -⟩ := List.mem_filter.mp (List.mem_of_getLast? h)
      rcases List.mem_cons.mp hin with rfl | hin
      · exact absurd rfl hne
      · have : e ∈ localTrace e.tid tr₂ := List.mem_filter.mpr ⟨hin, by simp⟩
        rw [hnil] at this
        cases this
    · simp [credentialsWriter, h]
  rcases horder.at hsome _ hwriter with h | h
  · exact hne h.symm
  · rw [h e₃ hmem.1 hmem.2] at he₃
    cases he₃

end Order

def Succeeded (run : ServerRun) (u : UserId) (i : ℕ) (request : ChangePasswordRequest)
    (salt : Option String) : Prop :=
  ∃ response, run.threads[i]? = some ⟨.changePassword u request salt, .ret (.ok response)⟩

section Finished

variable {cfg : ServerConfig} {init : Server} {acts : List Act} {u : UserId} {r₀ : UserRecord}

theorem finished_cases (hr₀ : r₀ ∈ init.db.users) (hu : r₀.userId = u)
    (hadmin : ∀ ev ∈ (serve cfg init acts).trace, ¬ ev.call.isAdmin) {i : ℕ}
    {request : ChangePasswordRequest} {salt : Option String} {res : Result ChangePasswordResponse}
    (hthread : (serve cfg init acts).threads[i]? =
      some ⟨.changePassword u request salt, .ret res⟩) :
    ((∃ e, res = .error e) ∧ ∀ ev ∈ localTrace i (serve cfg init acts).trace,
      credentials? u ev = none ∧ wrappedKey? u ev = none) ∨
    ∃ response hashed, res = .ok response ∧
      Changes cfg u request salt hashed (localTrace i (serve cfg init acts).trace) := by
  have halways := (holdsLast_serve cfg init acts u hr₀ hu hadmin).2
  refine follows_changePassword (((voxServer cfg).coherent_run init acts).follows i _ hthread)
    fun ev hev => ?_
  obtain ⟨tr₁, tr₂, htr⟩ := List.append_of_mem (mem_of_mem_localTrace hev).1
  rw [show (serve cfg init acts).trace = _ from htr] at halways
  obtain ⟨r, hr, hru, -⟩ := halways.at
  exact ⟨r, hr, hru⟩

/-- Every write of credentials or of a wrapped key belongs to a password change that succeeded, and
which wrote both, when none is in progress. -/
theorem write_belongs (hr₀ : r₀ ∈ init.db.users) (hu : r₀.userId = u)
    (hadmin : ∀ ev ∈ (serve cfg init acts).trace, ¬ ev.call.isAdmin)
    (hwrites : ∀ ev ∈ (serve cfg init acts).trace, writesKeys u ev →
      (serve cfg init acts).threads[ev.tid]?.any fun t => isChangePassword u t.op)
    (hidle : ∀ t ∈ (serve cfg init acts).threads, isChangePassword u t.op →
      t.prog.result?.isSome) {ev : Ev} (hev : ev ∈ (serve cfg init acts).trace)
    (hw : writesKeys u ev) : ∃ request salt hashed,
      Succeeded (serve cfg init acts) u ev.tid request salt ∧
      Changes cfg u request salt hashed (localTrace ev.tid (serve cfg init acts).trace) := by
  have hany := hwrites ev hev hw
  cases hthread : (serve cfg init acts).threads[ev.tid]? with
  | none => simp [hthread] at hany
  | some t =>
    rw [hthread, Option.any_some] at hany
    obtain ⟨o, prog⟩ := t
    obtain ⟨res, rfl⟩ := eq_ret_of_isSome_result? (p := prog)
      (hidle _ (List.mem_of_getElem? hthread) hany)
    cases o with
    | changePassword u' request salt =>
      obtain rfl : u' = u := of_decide_eq_true hany
      rcases finished_cases hr₀ hu hadmin hthread with
        ⟨-, hnone⟩ | ⟨response, hashed, rfl, hchanges⟩
      · have := hnone ev (List.mem_filter.mpr ⟨hev, by simp⟩)
        simp [writesKeys, this] at hw
      · exact ⟨request, salt, hashed, ⟨response, hthread⟩, hchanges⟩
    | _ => cases hany

end Finished

/-- Password and wrapped sync key match when no operation is in progress, if every operation writes
its wrapped key in order: both come from the same successful password change, or both are the
initial ones and none succeeded. -/
theorem password_matches_wrapped_key (cfg : ServerConfig) (init : Server) (acts : List Act)
    (u : UserId) (r₀ : UserRecord) (hv : init.db.Valid) (hr₀ : r₀ ∈ init.db.users)
    (hu : r₀.userId = u) (hadmin : ∀ ev ∈ (serve cfg init acts).trace, ¬ ev.call.isAdmin)
    (hwrites : ∀ ev ∈ (serve cfg init acts).trace, writesKeys u ev →
      (serve cfg init acts).threads[ev.tid]?.any fun t => isChangePassword u t.op)
    (horder : Always (InOrder u) (serve cfg init acts).trace)
    (hidle : ∀ t ∈ (serve cfg init acts).threads, isChangePassword u t.op →
      t.prog.result?.isSome) :
    ∃ r, findById u (serve cfg init acts).state.db = some r ∧
      ((credentials r = credentials r₀ ∧ wrappedKey r = wrappedKey r₀ ∧
        ∀ i request salt, ¬ Succeeded (serve cfg init acts) u i request salt) ∨
      ∃ i request salt hashed, Succeeded (serve cfg init acts) u i request salt ∧
        PasswordHasher.hash cfg salt request.newPasswordDerivedValue = .ok hashed ∧
        credentials r = (hashed.salt, hashed.verifier) ∧
        wrappedKey r = (request.wrappedSyncKey, request.syncWrapSalt, request.syncWrapParams)) := by
  obtain ⟨⟨r, hr, hru, hcred, hkey⟩, -⟩ := holdsLast_serve cfg init acts u hr₀ hu hadmin
  have hfind : findById u (serve cfg init acts).state.db = some r := by
    have hpk := (serve_valid cfg hv acts).1.users_pk
    refine hpk.find?_eq_some hr (by simpa using hru) fun r' _ hr' => ?_
    exact (of_decide_eq_true hr').trans hru.symm
  refine ⟨r, hfind, ?_⟩
  rw [getLast?_filterMap] at hcred hkey
  cases hlast : ((serve cfg init acts).trace.filter fun ev => (credentials? u ev).isSome).getLast?
    with
  | none =>
    have hno : ∀ ev ∈ (serve cfg init acts).trace, credentials? u ev = none := by
      have hnil := List.getLast?_eq_none_iff.mp hlast
      simpa using List.filter_eq_nil_iff.mp hnil
    left
    refine ⟨by rw [hcred, hlast]; rfl, ?_, ?_⟩
    · cases hkeyLast : ((serve cfg init acts).trace.filter fun ev =>
        (wrappedKey? u ev).isSome).getLast? with
      | none => rw [hkey, hkeyLast]; rfl
      | some e' =>
        obtain ⟨he', hw⟩ := List.mem_filter.mp (List.mem_of_getLast? hkeyLast)
        obtain ⟨_, _, _, -, hchanges⟩ :=
          write_belongs hr₀ hu hadmin hwrites hidle he' (by simp [writesKeys, hw])
        obtain ⟨ev, hev, hne⟩ := hchanges.exists_credentials
        exact absurd (hno ev hev) hne
    · rintro i request salt ⟨response, hthread⟩
      rcases finished_cases hr₀ hu hadmin hthread with ⟨⟨e, he⟩, -⟩ | ⟨_, _, -, hchanges⟩
      · cases he
      · obtain ⟨ev, hev, hne⟩ := hchanges.exists_credentials
        exact hne (hno ev hev)
  | some e =>
    right
    obtain ⟨he, hw⟩ := List.mem_filter.mp (List.mem_of_getLast? hlast)
    obtain ⟨request, salt, hashed, hsucc, hchanges⟩ :=
      write_belongs hr₀ hu hadmin hwrites hidle he (by simp [writesKeys, hw])
    obtain ⟨e₁, e₂, e₃, hcalls, -, -, -, -, -, hk₃⟩ := hchanges.calls
    have hin : ∀ ev ∈ (serve cfg init acts).trace, ev.tid = e.tid →
        ev ∈ localTrace e.tid (serve cfg init acts).trace :=
      fun ev hev ht => List.mem_filter.mpr ⟨hev, by simp [ht]⟩
    obtain ⟨e', hkeyLast⟩ : ∃ e', ((serve cfg init acts).trace.filter fun ev =>
        (wrappedKey? u ev).isSome).getLast? = some e' := by
      have hmem : e₃ ∈ localTrace e.tid (serve cfg init acts).trace := by simp [hcalls]
      refine ⟨_, List.getLast?_eq_some_getLast (List.ne_nil_of_mem (a := e₃) ?_)⟩
      exact List.mem_filter.mpr ⟨(mem_of_mem_localTrace hmem).1, by simp [hk₃]⟩
    obtain ⟨he', hw'⟩ := List.mem_filter.mp (List.mem_of_getLast? hkeyLast)
    have htid := eq_tid_of_inOrder horder hlast hkeyLast hcalls (by simp [hk₃])
    refine ⟨e.tid, request, salt, hashed, hsucc, hchanges.hash, ?_, ?_⟩
    · simp [hcred, hlast, hchanges.credentials?_eq (hin e he rfl) hw]
    · simp [hkey, hkeyLast, hchanges.wrappedKey?_eq (hin e' he' htid) hw']

def registered : UserRecord :=
  { userId := "u", username := "n", passwordSalt := "", passwordVerifier := "p", createdAt := 0
    wrappedSyncKey := "k0", syncWrapSalt := "s0", syncWrapParams := "w0" }

def firstRequest : ChangePasswordRequest := ⟨"p", "pa", "ka", "sa", "wa"⟩

def secondRequest : ChangePasswordRequest := ⟨"p", "pb", "kb", "sb", "wb"⟩

def changeBoth (order : List ℕ) : List Act :=
  [.spawn (.changePassword "u" firstRequest (some "1")),
   .spawn (.changePassword "u" secondRequest (some "2"))] ++ order.map .run

theorem changeBoth_in_order :
    ∃ r, findById "u" (serve default { db := { users := [registered] } }
        (changeBoth [0, 1, 0, 1, 0, 1])).state.db = some r ∧
      ∃ i request salt hashed, Succeeded (serve default { db := { users := [registered] } }
          (changeBoth [0, 1, 0, 1, 0, 1])) "u" i request salt ∧
        PasswordHasher.hash default salt request.newPasswordDerivedValue = .ok hashed ∧
        credentials r = (hashed.salt, hashed.verifier) ∧
        wrappedKey r = (request.wrappedSyncKey, request.syncWrapSalt, request.syncWrapParams) := by
  obtain ⟨r, hr, h⟩ := password_matches_wrapped_key default { db := { users := [registered] } }
    (changeBoth [0, 1, 0, 1, 0, 1]) "u" registered (by decide) (by decide) rfl (by decide)
    (by decide) (by decide) (by decide)
  exact ⟨r, hr, h.resolve_left fun h => h.2.2 0 firstRequest (some "1") ⟨⟨1⟩, rfl⟩⟩

/-- The second change writes both, and then the first one its wrapped key: both have succeeded, and
the password is the one of the second request with the wrapped key of the first. -/
theorem changeBoth_mismatch :
    (∃ response, (serve default { db := { users := [registered] } }
      (changeBoth [0, 1, 0, 1, 1, 0])).threads = [
        ⟨.changePassword "u" firstRequest (some "1"), .ret (.ok response)⟩,
        ⟨.changePassword "u" secondRequest (some "2"), .ret (.ok response)⟩]) ∧
    ∃ r, findById "u" (serve default { db := { users := [registered] } }
        (changeBoth [0, 1, 0, 1, 1, 0])).state.db = some r ∧
      PasswordHasher.hash default (some "2") secondRequest.newPasswordDerivedValue =
        .ok ⟨r.passwordSalt, r.passwordVerifier⟩ ∧
      wrappedKey r = (firstRequest.wrappedSyncKey, firstRequest.syncWrapSalt,
        firstRequest.syncWrapParams) ∧
      credentials r ≠ credentials registered ∧
      PasswordHasher.hash default (some "1") firstRequest.newPasswordDerivedValue ≠
        .ok ⟨r.passwordSalt, r.passwordVerifier⟩ := by
  exact ⟨⟨⟨1⟩, rfl⟩, ⟨"u", "n", "2", "2pb", 0, none, 1, "ka", "sa", "wa"⟩, by decide, rfl, rfl,
    by decide, by decide⟩

end VoxServer.Accounts
