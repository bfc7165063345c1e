import VoxServer.Accounts.KeyMaterial

/-! # The version of the sync key bundle

`ChangePassword` and `PUT /v1/sync/key-bundle` read the user's version and later write a
bundle with the next one, and other requests can write in between. If none does, every
write raises the stored version by one, and no two requests report the same.
-/

namespace VoxServer.KeyVersion

open Interleaving Prog Http UserRepository

section Versions

variable (u : UserId)

/-- The version of the user's bundle. -/
def storedVersion (db : Database) : Option Int32 := (findById u db).map (·.syncKeyVersion)

def version? : Call → Option Int32
  | .users (.setSyncKeyBundle u' b) => if u' = u then some b.syncKeyVersion else none
  | _ => none

def writes (ev : Ev) : Bool := (version? u ev.call).isSome

def reads (i : ℕ) (ev : Ev) : Bool := ev.tid = i ∧ ev.call = .users (.findById u)

/-- Between a request's read of the user and its write no bundle of the user is written. -/
def Undisturbed (tr : List Ev) (ev : Ev) : Prop :=
  writes u ev → Since (fun e => reads u ev.tid e) (fun e => writes u e) tr

instance (tr : List Ev) (ev : Ev) : Decidable (Undisturbed u tr ev) :=
  inferInstanceAs (Decidable (_ → Since _ _ tr))

end Versions

def bundleRequest (req : HttpRequest) : Bool :=
  req.method = .post ∧ pathOnly req.target = "/v1/account/change-password" ∨
    req.method = .put ∧ pathOnly req.target = "/v1/sync/key-bundle"

/-- The operation is such a request in a session of the user, and was answered with the version. -/
def Reports (run : NetRun) (u : UserId) (i : ℕ) (version : ℤ) : Prop :=
  ∃ req draws n, bundleRequest req.toHttpRequest ∧ run.threads[i]? = some ⟨.http req draws,
      .ret ⟨n, 200, .json (.obj [("sync_key_version", .int version)])⟩⟩ ∧
    ∃ sess, sessionOf (localTrace i run.trace) = some sess ∧ sess.userId = u

section Calls

variable (cfg : ServerConfig) {u : UserId} {c : Call} {s : Server}

theorem version?_eq_some {v : Int32} (h : version? u c = some v) :
    ∃ b, c = .users (.setSyncKeyBundle u b) ∧ b.syncKeyVersion = v := by
  unfold version? at h
  split at h
  · rename_i u' b
    obtain ⟨rfl, hb⟩ := Option.ite_none_right_eq_some.mp h
    exact ⟨b, rfl, Option.some.inj hb⟩
  · cases h

theorem findById_updateUser {u' : UserId} {f : UserRecord → UserRecord} {db : Database}
    (hf : ∀ r, (f r).userId = r.userId) :
    findById u (updateUser u' f db).2 =
      (findById u db).map fun r => if r.userId = u' then f r else r := by
  rw [UserCall.updateUser_snd]
  refine (Table.find?_updateWhere fun r => ?_).trans ?_
  · rw [hf]
  · simp [findById]

theorem storedVersion_exec (ha : ¬ c.isAdmin) {v : Int32} (h : storedVersion u s.db = some v) :
    storedVersion u (c.exec cfg s).2.db = some ((version? u c).getD v) := by
  obtain ⟨r, hr, rfl⟩ := Option.map_eq_some_iff.mp h
  have hid : r.userId = u := by simpa using List.find?_some hr
  have hupd : ∀ u' (f : UserRecord → UserRecord), (∀ r, (f r).userId = r.userId) →
      storedVersion u (updateUser u' f s.db).2 =
        some (if r.userId = u' then f r else r).syncKeyVersion := by
    intro u' f hf
    rw [storedVersion, findById_updateUser hf, hr]
    rfl
  cases c with
  | users a =>
    cases a with
    | createUser n =>
      refine Eq.trans ?_ h
      rcases createUser_cases n s.db with ⟨e, he⟩ | ⟨-, -, he⟩
      · simp only [Call.exec, Call.onDb, UserCall.exec, he]
      · simp only [Call.exec, Call.onDb, UserCall.exec, he, storedVersion, findById,
          List.find?_append]
        rw [show s.db.users.find? (fun x => decide (x.userId = u)) = some r from hr]
        rfl
    | disableUser u' now =>
      refine (hupd u' _ fun _ => ?_).trans ?_
      · rfl
      · split <;> rfl
    | setSyncKeyBundle u' b =>
      refine (hupd u' _ fun _ => ?_).trans ?_
      · rfl
      · by_cases hu : u' = u
        · simp [version?, hu, hid]
        · simp [version?, hu, hid, Ne.symm hu]
    | updatePasswordCredentials u' salt w =>
      refine (hupd u' _ fun _ => ?_).trans ?_
      · rfl
      · split <;> rfl
    | _ => exact h
  | admin a => exact absurd rfl ha
  | _ =>
    simp only [storedVersion, findById]
    rw [Call.exec_users cfg (by simp) (by simp [Call.isAdmin])]
    exact h

end Calls

section Requests

/-- A bundle is written with the version after the one that was read before. -/
def BuildsOn (es : List Ev) (ev : Ev) : Prop :=
  ∀ u b, ev.call = .users (.setSyncKeyBundle u b) → ∀ e ∈ es, e.call = .users (.findById u) →
    ∀ r, findById u e.pre.db = some r → b.syncKeyVersion = r.syncKeyVersion + 1

/-- The calls found the session, and read its user only as this row. -/
def Read (sess : SessionRecord) (r : UserRecord) (es : List Ev) : Prop :=
  sessionOf es = some sess ∧ ∀ ev ∈ es, ev.call = .users (.findById sess.userId) →
    findById sess.userId ev.pre.db = some r

/-- The calls found the session, and wrote the version for its user. -/
def Wrote (sess : SessionRecord) (version : Int32) (es : List Ev) : Prop :=
  sessionOf es = some sess ∧ ∃ b : SyncKeyBundleRecord, b.syncKeyVersion = version ∧
    ∃ ev ∈ es, ev.call = .users (.setSyncKeyBundle sess.userId b)

/-- The answer has the version that was written for the user of the session. -/
def Answers (es : List Ev) (v : Json) : Prop :=
  ∃ sess version, v = .obj [("sync_key_version", .int version.toInt)] ∧ Wrote sess version es

variable {cfg : ServerConfig} {sess : SessionRecord} {r : UserRecord} {es : List Ev} {i : ℕ}
  {c : Call} {s : Server}

theorem ne_of_plain (hc : c.plain) : ∀ u b, c ≠ .users (.setSyncKeyBundle u b) := by
  rintro u b rfl
  cases hc

theorem buildsOn_of_ne (hc : ∀ u b, c ≠ .users (.setSyncKeyBundle u b)) :
    BuildsOn es ⟨i, c, s⟩ :=
  fun u b h => absurd h (hc u b)

theorem read_of_sought (h : Sought sess es) (hr : findById sess.userId s.db = some r) :
    Read sess r (es ++ [⟨i, .users (.findById sess.userId), s⟩]) := by
  refine ⟨sessionOf_append h.1, fun ev hev hcall => ?_⟩
  rcases List.mem_append.mp hev with hev | hev
  · rcases h.2 ev hev with hev | ⟨hash, hev⟩
    · rw [hev] at hcall
      cases hcall
    · rw [hev] at hcall
      cases hcall
  · obtain rfl := List.mem_singleton.mp hev
    exact hr

theorem Read.snoc (h : Read sess r es) (hu : c ≠ .users (.findById sess.userId)) :
    Read sess r (es ++ [⟨i, c, s⟩]) := by
  refine ⟨sessionOf_append h.1, fun ev hev hcall => ?_⟩
  rcases List.mem_append.mp hev with hev | hev
  · exact h.2 ev hev hcall
  · obtain rfl := List.mem_singleton.mp hev
    exact absurd hcall hu

variable {b : SyncKeyBundleRecord}

theorem Read.buildsOn (h : Read sess r es) (hb : b.syncKeyVersion = r.syncKeyVersion + 1) :
    BuildsOn es ⟨i, .users (.setSyncKeyBundle sess.userId b), s⟩ := by
  intro u b' hcall e he hread r' hr'
  cases hcall
  rw [hb, Option.some.inj ((h.2 e he hread).symm.trans hr')]

theorem Read.wrote (h : Read sess r es) :
    Wrote sess b.syncKeyVersion (es ++ [⟨i, .users (.setSyncKeyBundle sess.userId b), s⟩]) :=
  ⟨sessionOf_append h.1, b, rfl, _, List.mem_concat_self, rfl⟩

theorem Wrote.snoc {version : Int32} (h : Wrote sess version es) :
    Wrote sess version (es ++ [⟨i, c, s⟩]) := by
  obtain ⟨hsess, b, hb, ev, hev, hcall⟩ := h
  exact ⟨sessionOf_append hsess, b, hb, ev, List.mem_append_left _ hev, hcall⟩

theorem spec_changePassword {request : ChangePasswordRequest} {salt : Option String}
    (hes : Sought sess es) :
    (AuthService.changePassword cfg sess.userId request salt).Spec (Call.exec cfg) (fun _ => True)
      BuildsOn (fun es r => ∀ res, r = .ok res → Wrote sess res.syncKeyVersion es) es := by
  refine spec_perform_bind.mpr fun i₁ s₁ _ => ⟨buildsOn_of_ne (by simp), ?_⟩
  split
  · rename_i user huser
    have hread : Read sess user (es ++ [⟨i₁, .users (.findById sess.userId), s₁⟩]) :=
      read_of_sought hes huser
    split
    · simp
    split
    · simp
    split
    · simp
    rename_i hashed _
    refine spec_perform_bind.mpr fun i₂ s₂ _ => ⟨buildsOn_of_ne (by simp), ?_⟩
    replace hread := hread.snoc (i := i₂) (s := s₂)
      (c := .users (.updatePasswordCredentials sess.userId hashed.salt hashed.verifier)) (by simp)
    split
    · simp
    refine spec_perform_bind.mpr fun i₃ s₃ _ => ⟨hread.buildsOn rfl, ?_⟩
    split
    · simp
    · rintro res hres
      cases hres
      exact hread.wrote
  · simp

variable {draws : Draws}

theorem spec_postChangePassword {req : HttpRequest} (hes : Sought sess es) :
    (postChangePassword cfg draws sess req).Spec (Call.exec cfg) (fun _ => True) BuildsOn
      (Grants Answers) es := by
  refine spec_withBody fun o _ => ?_
  refine (spec_changePassword hes).bind fun es r hr => ?_
  cases r with
  | error e => exact grants_serviceError
  | ok res => exact grants_jsonRes ⟨sess, res.syncKeyVersion, rfl, hr res rfl⟩

theorem spec_putKeyBundle {req : HttpRequest} (hes : Sought sess es) :
    (putKeyBundle cfg sess req).Spec (Call.exec cfg) (fun _ => True) BuildsOn
      (Grants Answers) es := by
  refine spec_withBody fun o _ => ?_
  refine spec_perform_bind.mpr fun i₁ s₁ _ => ⟨buildsOn_of_ne (by simp), ?_⟩
  split
  · exact grants_errRes (by decide)
  rename_i user huser
  have hread : Read sess user (es ++ [⟨i₁, .users (.findById sess.userId), s₁⟩]) :=
    read_of_sought hes huser
  refine spec_perform_bind.mpr fun i₂ s₂ _ => ⟨hread.buildsOn rfl, ?_⟩
  split
  · exact grants_serviceError
  -- The other devices are told after the write.
  have hnotify : (Handlers.notifyUserDevicesExcept sess.userId sess.userId sess.deviceId
      (Handlers.userDevicesChanged cfg sess.userId)).Only (·.plain) :=
    plain_notifyUserDevicesExcept _ _ _ _
  refine Spec.bind (hnotify.spec (I := Wrote sess (user.syncKeyVersion + 1)) ?_ hread.wrote) ?_
  · exact fun es i c s hc hwrote => ⟨buildsOn_of_ne (ne_of_plain hc), hwrote.snoc⟩
  · exact fun es _ hwrote => grants_jsonRes ⟨sess, _, rfl, hwrote⟩

theorem spec_of_ne {α : Type} {p : ServerProg α}
    (h : p.Only fun c => ∀ u b, c ≠ .users (.setSyncKeyBundle u b)) :
    p.Spec (Call.exec cfg) (fun _ => True) BuildsOn (fun _ _ => True) es :=
  h.spec (fun _ _ _ _ hc _ => ⟨buildsOn_of_ne hc, trivial⟩) trivial

/-- Every request builds on what it has read, and those for the bundle report what they write. -/
theorem spec_request (req : IncomingRequest) :
    (serveRequest cfg draws req).Spec (Call.exec cfg) (fun _ => True) BuildsOn
      (fun es r => bundleRequest req.toHttpRequest →
        ∀ version v, r = ⟨version, 200, .json v⟩ → Answers es v) [] := by
  have hnow : ∀ es i s, BuildsOn es ⟨i, .now, s⟩ := fun _ _ _ => buildsOn_of_ne (by simp)
  have hfind : ∀ es i hash s, BuildsOn es ⟨i, .sessions (.findByAccessToken hash), s⟩ :=
    fun _ _ _ _ => buildsOn_of_ne (by simp)
  by_cases hreq : bundleRequest req.toHttpRequest
  · rcases of_decide_eq_true hreq with ⟨hm, hp⟩ | ⟨hm, hp⟩
    · refine (spec_serveRequest hnow hfind ?_ ?_ fun es sess hes => ?_).mono fun _ _ h _ => h
      · simp [publicRoute, hm, hp]
      · simp [adminRoute, hm]
      · unfold handleAuthenticated handlePost
        simp only [hm, hp]
        exact spec_postChangePassword hes
    · refine (spec_serveRequest hnow hfind ?_ ?_ fun es sess hes => ?_).mono fun _ _ h _ => h
      · simp [publicRoute, hm]
      · simp [adminRoute, hm]
      · unfold handleAuthenticated handlePut
        simp only [hm, hp]
        exact spec_putKeyBundle hes
  · have honly : (serveRequest cfg draws req).Only
        fun c => ∀ u b, c ≠ .users (.setSyncKeyBundle u b) := by
      refine issues_serveRequest.mono fun c hc u b he => ?_
      subst he
      refine hreq ?_
      cases hc with
      | plain hc => cases hc
      | changeBundle hm hp _ => simp [bundleRequest, hm, hp]
      | putBundle hm hroute _ => simp [bundleRequest, hm, putRoute_eq_keyBundle hroute]
    exact (spec_of_ne honly).mono fun _ _ _ h => absurd h hreq

end Requests

section Runs

variable {cfg : ServerConfig} {init : Server} {acts : List NetAct} {u : UserId} {v₀ : Int32}

theorem always_buildsOn :
    Always (fun tr ev => BuildsOn (localTrace ev.tid tr) ev) (serveHttp cfg init acts).trace := by
  refine always_local ((httpServer cfg).always_spec (J := fun _ => True) (fun _ _ => trivial) ?_)
  intro o _
  by_cases ho : ∃ req draws, o = .http req draws
  · obtain ⟨req, draws, rfl⟩ := ho
    exact (spec_request req).mono fun _ _ _ => trivial
  · refine spec_of_ne (o.only (fun c => ne_of_plain) ?_ ?_)
    · rintro now u b h
      cases h
    · rintro req draws rfl
      exact absurd ⟨req, draws, rfl⟩ ho

/-- The stored version is the initial one and one more for each write. -/
def Tracks (u : UserId) (v₀ : Int32) (tr : List Ev) (db : Database) : Prop :=
  storedVersion u db = some (v₀ + Int32.ofNat (tr.countP (writes u)))

theorem Tracks.exec {tr : List Ev} {s : Server} {i : ℕ} {c : Call} (h : Tracks u v₀ tr s.db)
    (ha : ¬ c.isAdmin) (hun : Undisturbed u tr ⟨i, c, s⟩)
    (hbuilds : BuildsOn (localTrace i tr) ⟨i, c, s⟩)
    (hsame : ∀ l₁ a l₂, tr = l₁ ++ a :: l₂ → (∀ b ∈ a :: l₂, ¬ writes u b) →
      storedVersion u s.db = storedVersion u a.pre.db) :
    Tracks u v₀ (tr ++ [⟨i, c, s⟩]) (c.exec cfg s).2.db := by
  have hexec := storedVersion_exec cfg ha h
  rw [Tracks, hexec, List.countP_append, List.countP_singleton]
  cases hv : version? u c with
  | none => simp [writes, hv]
  | some v =>
    have hw : writes u ⟨i, c, s⟩ := by simp [writes, hv]
    obtain ⟨l₁, a, l₂, rfl, hread, hno⟩ := hun hw
    obtain ⟨htid, hcall⟩ := of_decide_eq_true hread
    have hstored := hsame l₁ a l₂ rfl ?_
    · rw [h] at hstored
      obtain ⟨r, hr, hversion⟩ := Option.map_eq_some_iff.mp hstored.symm
      obtain ⟨b, rfl, rfl⟩ := version?_eq_some hv
      have hb := hbuilds u b rfl a (by simp [localTrace, htid]) hcall r hr
      rw [hb, hversion, if_pos hw, Int32.ofNat_add, Int32.add_assoc]
      rfl
    · intro b hb
      rcases List.mem_cons.mp hb with rfl | hb
      · simp [writes, hcall, version?]
      · exact hno b hb

variable (h0 : storedVersion u init.db = some v₀)
  (hadmin : ∀ ev ∈ (serveHttp cfg init acts).trace, ¬ ev.call.isAdmin)

include h0 hadmin

theorem stored_isSome :
    ∀ ev ∈ (serveHttp cfg init acts).trace, ∃ v, storedVersion u ev.pre.db = some v := by
  have h := ((httpServer cfg).always_invariant (always_of_mem hadmin)
    (I := fun _ s => ∃ v, storedVersion u s.db = some v) ⟨v₀, h0⟩ ?_ fun _ _ _ h => h).2
  · intro ev hev
    obtain ⟨l₁, l₂, he⟩ := List.append_of_mem hev
    exact (he ▸ h).at
  · rintro tr s i c ha ⟨v, hv⟩
    exact ⟨_, storedVersion_exec cfg ha hv⟩

variable (hun : Always (Undisturbed u) (serveHttp cfg init acts).trace)

include hun

theorem tracks_run :
    Tracks u v₀ (serveHttp cfg init acts).trace (serveHttp cfg init acts).state.db ∧
      Always (fun tr ev => Tracks u v₀ tr ev.pre.db ∧
        Tracks u v₀ (tr ++ [ev]) (ev.call.exec cfg ev.pre).2.db)
        (serveHttp cfg init acts).trace := by
  have hsame := (httpServer cfg).eq_of_unwritten (v := fun s => storedVersion u s.db)
    (w := fun ev => writes u ev)
    (J := fun ev => ¬ ev.call.isAdmin ∧ ∃ v, storedVersion u ev.pre.db = some v)
    (fun ev hev => ⟨hadmin ev hev, stored_isSome h0 hadmin ev hev⟩) ?_ fun _ _ => rfl
  · have hall := ((always_of_mem hadmin).and hun).and (always_buildsOn.and hsame)
    obtain ⟨hend, htr⟩ := (httpServer cfg).always_invariant hall
      (I := fun tr s => Tracks u v₀ tr s.db) (by simpa [Tracks] using h0)
      (fun tr s i c ⟨⟨ha, hun⟩, hbuilds, hsame⟩ h => h.exec ha hun hbuilds hsame) fun _ _ _ h => h
    refine ⟨hend, (hall.and htr).imp ?_⟩
    rintro tr ev ⟨⟨⟨ha, hun⟩, hbuilds, hsame⟩, h⟩
    exact ⟨h, h.exec ha hun hbuilds hsame⟩
  · rintro ⟨i, c, s⟩ ⟨ha, v, hv⟩ hw
    have hnone : version? u c = none := by simpa [writes] using hw
    refine (storedVersion_exec cfg ha hv).trans ?_
    rw [hnone, hv]
    rfl

theorem version_of_write {tr₁ tr₂ : List Ev} {ev : Ev} {b : SyncKeyBundleRecord}
    (he : (serveHttp cfg init acts).trace = tr₁ ++ ev :: tr₂)
    (hb : ev.call = .users (.setSyncKeyBundle u b)) :
    b.syncKeyVersion = v₀ + Int32.ofNat (tr₁.countP (writes u) + 1) := by
  obtain ⟨hbefore, hafter⟩ := (he ▸ (tracks_run h0 hadmin hun).2).at
  have ha : ¬ ev.call.isAdmin := hadmin ev (by simp [he])
  have hexec := storedVersion_exec cfg ha hbefore
  have hversion : version? u ev.call = some b.syncKeyVersion := by simp [hb, version?]
  have hw : writes u ev := by simp [writes, hversion]
  rw [Tracks, hexec, hversion, List.countP_append, List.countP_singleton, if_pos hw] at hafter
  exact Option.some.inj hafter

omit h0 hadmin hun

theorem toInt_add_ofNat {n : ℕ} (h : v₀.toInt + n < 2 ^ 31) :
    (v₀ + Int32.ofNat n).toInt = v₀.toInt + n := by
  have hlow := v₀.le_toInt
  rw [Int32.toInt_add, Int32.toInt_ofNat', Int.add_bmod_bmod]
  have hsize : Int32.size = 2 ^ 32 := rfl
  exact Int.bmod_eq_of_le (by omega) (by omega)

include h0 hadmin hun in
theorem version_lt_of_before
    (hmax : v₀.toInt + (serveHttp cfg init acts).trace.countP (writes u) < 2 ^ 31)
    {tr₁ tr₂ : List Ev} {ev ev' : Ev} {b b' : SyncKeyBundleRecord}
    (he : (serveHttp cfg init acts).trace = tr₁ ++ ev :: tr₂) (hmem : ev' ∈ tr₂)
    (hb : ev.call = .users (.setSyncKeyBundle u b))
    (hb' : ev'.call = .users (.setSyncKeyBundle u b')) :
    b.syncKeyVersion.toInt < b'.syncKeyVersion.toInt := by
  obtain ⟨m₁, m₂, rfl⟩ := List.append_of_mem hmem
  have he' : (serveHttp cfg init acts).trace = (tr₁ ++ ev :: m₁) ++ ev' :: m₂ := by simp [he]
  have hw : writes u ev := by simp [writes, hb, version?]
  have hw' : writes u ev' := by simp [writes, hb', version?]
  have hcount : (serveHttp cfg init acts).trace.countP (writes u) =
      tr₁.countP (writes u) + m₁.countP (writes u) + m₂.countP (writes u) + 2 := by
    rw [he]
    simp only [List.countP_append, List.countP_cons, hw, hw', if_true]
    omega
  rw [version_of_write h0 hadmin hun he hb, version_of_write h0 hadmin hun he' hb',
    toInt_add_ofNat (by omega), toInt_add_ofNat]
  · simp only [List.countP_append, List.countP_cons, hw, if_true]
    omega
  · simp only [List.countP_append, List.countP_cons, hw, if_true]
    omega

theorem written_of_reports {i : ℕ} {version : ℤ}
    (h : Reports (serveHttp cfg init acts) u i version) :
    ∃ ev ∈ (serveHttp cfg init acts).trace, ev.tid = i ∧
      ∃ b, ev.call = .users (.setSyncKeyBundle u b) ∧ b.syncKeyVersion.toInt = version := by
  obtain ⟨req, draws, n, hreq, ht, sess, hsess, rfl⟩ := h
  have hpost := ((httpServer cfg).spec_run (J := fun _ => True) (fun _ _ => trivial) ht
    (spec_request req)).2 hreq n _ rfl
  obtain ⟨sess', version', hv, hsess', b, rfl, ev, hev, hcall⟩ := hpost
  obtain rfl : sess = sess' := Option.some.inj (hsess.symm.trans hsess')
  obtain ⟨hmem, htid⟩ := mem_of_mem_localTrace hev
  refine ⟨ev, hmem, htid, b, hcall, ?_⟩
  simpa using hv.symm

end Runs

/-- As long as no other bundle of the user is written between the read and the write of a request,
and the version does not overflow, the stored version counts the writes, each write raises it by
one, and no two requests report the same version. -/
theorem versions_tracked (cfg : ServerConfig) {init : Server} {u : UserId} {v₀ : Int32}
    (h0 : storedVersion u init.db = some v₀) (acts : List NetAct)
    (hadmin : ∀ ev ∈ (serveHttp cfg init acts).trace, ¬ ev.call.isAdmin)
    (hun : Always (Undisturbed u) (serveHttp cfg init acts).trace)
    (hmax : v₀.toInt + (serveHttp cfg init acts).trace.countP (writes u) < 2 ^ 31) :
    (∃ v, storedVersion u (serveHttp cfg init acts).state.db = some v ∧
      v.toInt = v₀.toInt + (serveHttp cfg init acts).trace.countP (writes u)) ∧
    (∀ ev ∈ (serveHttp cfg init acts).trace, writes u ev →
      ∃ v v', storedVersion u ev.pre.db = some v ∧
        storedVersion u (ev.call.exec cfg ev.pre).2.db = some v' ∧ v'.toInt = v.toInt + 1) ∧
    ∀ i j version, i ≠ j → Reports (serveHttp cfg init acts) u i version →
      ¬ Reports (serveHttp cfg init acts) u j version := by
  obtain ⟨hend, htr⟩ := tracks_run h0 hadmin hun
  refine ⟨⟨_, hend, toInt_add_ofNat hmax⟩, ?_, ?_⟩
  · intro ev hev hw
    obtain ⟨tr₁, tr₂, he⟩ := List.append_of_mem hev
    obtain ⟨hbefore, hafter⟩ := (he ▸ htr).at
    have hcount : (serveHttp cfg init acts).trace.countP (writes u) =
        tr₁.countP (writes u) + tr₂.countP (writes u) + 1 := by
      rw [he]
      simp only [List.countP_append, List.countP_cons, hw, if_true]
      omega
    refine ⟨_, _, hbefore, hafter, ?_⟩
    rw [List.countP_append, List.countP_singleton, if_pos hw, toInt_add_ofNat (by omega),
      toInt_add_ofNat (by omega)]
    omega
  · intro i j version hne hi hj
    obtain ⟨ev, hev, rfl, b, hb, rfl⟩ := written_of_reports hi
    obtain ⟨ev', hev', rfl, b', hb', hversion⟩ := written_of_reports hj
    obtain ⟨tr₁, tr₂, he⟩ := List.append_of_mem hev
    rw [he, List.mem_append, List.mem_cons] at hev'
    rcases hev' with hev' | rfl | hev'
    · obtain ⟨m₁, m₂, rfl⟩ := List.append_of_mem hev'
      rw [List.append_assoc, List.cons_append] at he
      exact (version_lt_of_before h0 hadmin hun hmax he (by simp) hb' hb).ne hversion
    · exact hne rfl
    · exact (version_lt_of_before h0 hadmin hun hmax he hev' hb hb').ne' hversion

section Example

open KeyMaterial

def registered : Server := (serveHttp keyBodies {} registers).state

/-- The bundle is replaced and the password changed; `order` says when each of the two goes on. -/
def replaceAndChange (order : List ℕ) : List NetAct :=
  .spawn (inSession .put "/v1/sync/key-bundle" bundleBody) ::
    .spawn (inSession .post "/v1/account/change-password" passwordBody) :: order.map .run

def inTurn : NetRun :=
  serveHttp keyBodies registered (replaceAndChange [0, 0, 0, 0, 0, 1, 1, 1, 1, 1])

def within : NetRun :=
  serveHttp keyBodies registered (replaceAndChange [0, 0, 0, 1, 1, 1, 1, 1, 0, 0])

set_option maxRecDepth 8000 in
theorem inTurn_tracked :
    Reports inTurn "a" 0 2 ∧ Reports inTurn "a" 1 3 ∧ ¬ Reports inTurn "a" 1 2 := by
  have h₀ : Reports inTurn "a" 0 2 :=
    ⟨_, _, _, by decide, rfl, _, rfl, rfl⟩
  have h₁ : Reports inTurn "a" 1 3 :=
    ⟨_, _, _, by decide, rfl, _, rfl, rfl⟩
  obtain ⟨-, -, hdistinct⟩ := versions_tracked keyBodies
    (show storedVersion "a" registered.db = some 1 from rfl)
    (replaceAndChange [0, 0, 0, 0, 0, 1, 1, 1, 1, 1]) (by decide) (by decide) (by decide)
  exact ⟨h₀, h₁, hdistinct 0 1 2 (by decide) h₀⟩

set_option maxRecDepth 8000 in
/-- Both report the same version, and after two writes it has grown by one. -/
theorem within_untracked :
    Reports within "a" 0 2 ∧ Reports within "a" 1 2 ∧ within.trace.countP (writes "a") = 2 ∧
    storedVersion "a" registered.db = some 1 ∧ storedVersion "a" within.state.db = some 2 := by
  have h₀ : Reports within "a" 0 2 :=
    ⟨_, _, _, by decide, rfl, _, rfl, rfl⟩
  have h₁ : Reports within "a" 1 2 :=
    ⟨_, _, _, by decide, rfl, _, rfl, rfl⟩
  exact ⟨h₀, h₁, by decide, by decide, by decide⟩

end Example

end VoxServer.KeyVersion
