import VoxServer.Interleaving.Sequential
import VoxServer.Net.Routes

/-! # The two routes to a prekey bundle

The bundle of a device is asked for under its user, or in the older form under the device
alone. The tests for users take every path under `/v1/users/` first and give up on one with
a further slash, so the first route never leads to a bundle, and the two can only agree in
that neither of them is found.
-/

namespace VoxServer.BundleRoutes

open Interleaving Prog Http

def userTarget (u : UserId) (d : DeviceId) : String :=
  "/v1/users/" ++ u ++ "/devices/" ++ d ++ "/prekey-bundle"

def deviceTarget (d : DeviceId) : String := "/v1/devices/" ++ d ++ "/prekey-bundle"

/-- No other user has registered the device id. -/
def SoleOwner (u : UserId) (d : DeviceId) (db : Database) : Prop :=
  ∀ dev ∈ db.devices, dev.deviceId = d → dev.userId = u

instance (u : UserId) (d : DeviceId) (db : Database) : Decidable (SoleOwner u d db) :=
  inferInstanceAs (Decidable (∀ dev ∈ db.devices, dev.deviceId = d → dev.userId = u))

section Answers

variable {version : ℕ} {h h' : Handled}

/-- The answers of the routes under `/v1/users/`. -/
inductive UserAnswer (version : ℕ) : Handled → Prop
  | threw : UserAnswer version .threw
  | notFound : UserAnswer version (errRes version 404 ⟨.notFound, "User not found"⟩)
  | user (u : UserRecord) : UserAnswer version (jsonRes version 200 (userJson u))
  | users (vs : List Json) : UserAnswer version (jsonRes version 200 (.obj [("users", .arr vs)]))
  | bundles (u : UserRecord) (vs : List Json) : UserAnswer version
      (jsonRes version 200 (.obj [("user_id", .str u.userId), ("username", .str u.username),
        ("bundles", .arr vs)]))
  | devices (vs : List Json) :
      UserAnswer version (jsonRes version 200 (.obj [("devices", .arr vs)]))

inductive BundleAnswer (version : ℕ) : Handled → Prop
  | bundle (u : UserId) (d : DeviceId) (b : PrekeyBundle) : BundleAnswer version
      (jsonRes version 200 (.obj ([("user_id", .str u), ("device_id", .str d)] ++ bundleFields b)))
  | refused (status : ℕ) (e : Error) (huser : e.message ≠ "User not found")
      (hthrown : e.message ≠ "Internal server error") :
      BundleAnswer version (errRes version status e)

theorem UserAnswer.ne_bundle (hu : UserAnswer version h) (hb : BundleAnswer version h') :
    h.toResponse version ≠ h'.toResponse version := by
  cases hb with
  | bundle u d b =>
    cases hu <;> simp [Handled.toResponse, jsonRes, errRes, errObj, userJson]
  | refused status e huser hthrown =>
    cases hu <;>
      simp [Handled.toResponse, jsonRes, errRes, errObj, userJson, huser.symm, hthrown.symm]

theorem UserAnswer.ne_unhandled (hu : UserAnswer version h) :
    h.toResponse version ≠ Handled.unhandled.toResponse version := by
  cases hu <;> simp [Handled.toResponse, jsonRes, errRes]

theorem BundleAnswer.ne_unhandled (hb : BundleAnswer version h) :
    h.toResponse version ≠ Handled.unhandled.toResponse version := by
  cases hb <;> simp [Handled.toResponse, jsonRes, errRes]

end Answers

section Handlers

variable {cfg : ServerConfig} {sess : SessionRecord} {req : HttpRequest} {s : Server}

theorem publicUser_answer (u : Option UserRecord) : UserAnswer req.version (publicUser req u) := by
  unfold publicUser
  split
  · split
    · exact .notFound
    · exact .user _
  · exact .notFound

theorem returns_getPrekeyBundles (u : UserId) :
    (getPrekeyBundles req u).Returns (UserAnswer req.version) := by
  refine returns_perform_bind.mpr fun r => ?_
  split
  · exact .notFound
  · split
    · exact .notFound
    · exact returns_perform_bind.mpr fun _ => Returns.bind fun vs => .bundles _ vs

theorem returns_getDevicesOf (u : UserId) :
    (getDevicesOf req u).Returns (UserAnswer req.version) := by
  refine returns_perform_bind.mpr fun r => ?_
  split
  · exact .notFound
  · split
    · exact .notFound
    · exact returns_perform_bind.mpr fun _ => Returns.bind fun vs => .devices vs

theorem returns_getSearch : (getSearch req).Returns (UserAnswer req.version) := by
  unfold getSearch
  dsimp only
  split
  · refine returns_perform_bind.mpr fun _ => ?_
    split
    · exact .users _
    · exact .threw
  · exact .threw

theorem route_users {rest : String} {r : GetRoute}
    (h : getRoute ("/v1/users/" ++ rest) = some r) :
    (∃ name, r = .userByUsername name) ∨ r = .search ∨ (∃ u, r = .prekeyBundles u) ∨
      (∃ u, r = .devicesOf u) ∨ ∃ u, r = .user u := by
  rw [getRoute_users] at h
  repeat' split at h
  all_goals cases h
  all_goals simp

variable (cfg sess req) in
theorem returns_users {rest : String} (hpath : pathOnly req.target = "/v1/users/" ++ rest)
    (hroute : getRoute (pathOnly req.target) ≠ none) :
    (handleGet cfg sess req).Returns (UserAnswer req.version) := by
  obtain ⟨r, hr⟩ := Option.ne_none_iff_exists'.mp hroute
  unfold handleGet
  rw [hr]
  rw [hpath] at hr
  rcases route_users hr with ⟨name, rfl⟩ | rfl | ⟨u, rfl⟩ | ⟨u, rfl⟩ | ⟨u, rfl⟩
  · exact returns_perform_bind.mpr fun u => publicUser_answer u
  · exact returns_getSearch
  · exact returns_getPrekeyBundles u
  · exact returns_getDevicesOf u
  · exact returns_perform_bind.mpr fun u => publicUser_answer u

theorem getPrekeyBundle_error {u : UserId} {d : DeviceId} {now : Timestamp} {db : Database}
    {e : Error} (h : (DeviceRepository.getPrekeyBundle u d now db).1 = .error e) :
    e = ⟨.notFound, "Device not found"⟩ ∨ e = ⟨.forbidden, "Device revoked"⟩ := by
  unfold DeviceRepository.getPrekeyBundle at h
  split at h
  · cases h
    exact .inl rfl
  · split at h
    · cases h
      exact .inr rfl
    · cases h

theorem ends_getPrekeyBundle (u : UserId) (d : DeviceId) :
    (getPrekeyBundle req u d).Ends (Call.exec cfg) (fun h _ => BundleAnswer req.version h) s := by
  apply ends_perform_bind.mpr
  split
  · rename_i e he
    rcases getPrekeyBundle_error he with rfl | rfl
    · exact .refused _ _ (by decide) (by decide)
    · exact .refused _ _ (by decide) (by decide)
  · exact .bundle u d _

theorem ends_getPrekeyBundleOfDevice (d : DeviceId) :
    (getPrekeyBundleOfDevice req d).Ends (Call.exec cfg)
      (fun h _ => BundleAnswer req.version h) s := by
  apply ends_perform_bind.mpr
  split
  · exact .refused _ _ (by decide) (by decide)
  · exact ends_getPrekeyBundle _ d
  · exact .refused _ _ (by decide) (by decide)

end Handlers

section Paths

variable {u : UserId} {d : DeviceId}

theorem pathOnly_userTarget (u : UserId) (d : DeviceId) :
    ∃ rest, pathOnly (userTarget u d) = "/v1/users/" ++ rest := by
  refine ⟨pathOnly (u ++ "/devices/" ++ d ++ "/prekey-bundle"), ?_⟩
  rw [← pathOnly_append (by decide)]
  simp only [userTarget, String.append_assoc]

theorem getRoute_deviceTarget (hd : '/' ∉ d.toList) (hq : '?' ∉ d.toList) :
    getRoute (pathOnly (deviceTarget d)) = some (.prekeyBundleOfDevice d) := by
  have hpath : pathOnly (deviceTarget d) = "/v1/devices/" ++ d ++ "/" ++ "prekey-bundle" := by
    rw [pathOnly_of_not_mem]
    · rw [String.append_assoc]
      rfl
    · simp [deviceTarget, hq]
  have hstart : after? "/v1/devices/" (pathOnly (deviceTarget d)) =
      some (d ++ "/" ++ "prekey-bundle") := by
    rw [after?_eq_some, hpath]
    simp only [String.append_assoc]
  rw [getRoute_devices hstart, splitDeviceSubPath_eq_some.mpr ⟨hpath, hd⟩]
  rfl

theorem getRoute_deviceTarget_of_mem (hd : '/' ∉ d.toList) (hq : '?' ∈ d.toList) :
    getRoute (pathOnly (deviceTarget d)) = none := by
  have hstart : after? "/v1/devices/" (pathOnly (deviceTarget d)) = some (pathOnly d) := by
    rw [after?_eq_some, deviceTarget, String.append_assoc, pathOnly_append (by decide),
      pathOnly_append_of_mem hq]
  rw [getRoute_devices hstart,
    splitDeviceSubPath_of_not_mem hstart fun h => hd (mem_of_mem_pathOnly h)]
  rfl

end Paths

section Agreement

variable {cfg : ServerConfig} {draws : Draws} {sess : SessionRecord} {req : HttpRequest}
  {s : Server} {u : UserId} {d : DeviceId}

/-- The response to a `GET` request for the target, and the state after it. -/
def answer (cfg : ServerConfig) (draws : Draws) (sess : SessionRecord) (req : HttpRequest)
    (target : String) (s : Server) : HttpResponse × Server :=
  let p := (handleAuthenticated cfg draws sess { req with method := .get, target }).run
    (Call.exec cfg) s
  (p.1.toResponse req.version, p.2)

def bundleOf (cfg : ServerConfig) (req : HttpRequest) (u : UserId) (d : DeviceId) (s : Server) :
    HttpResponse × Server :=
  let p := (getPrekeyBundle req u d).run (Call.exec cfg) s
  (p.1.toResponse req.version, p.2)

/-- Both routes answer alike for a device id of one user, and for one of several users the route
under the user answers with the bundle of its device. -/
def Agree (cfg : ServerConfig) (draws : Draws) (sess : SessionRecord) (req : HttpRequest)
    (u : UserId) (d : DeviceId) (s : Server) : Prop :=
  (SoleOwner u d s.db → answer cfg draws sess req (userTarget u d) s =
    answer cfg draws sess req (deviceTarget d) s) ∧
  (¬ SoleOwner u d s.db → answer cfg draws sess req (userTarget u d) s = bundleOf cfg req u d s)

theorem answer_of_none {target : String} (h : getRoute (pathOnly target) = none) :
    answer cfg draws sess req target s = (Handled.unhandled.toResponse req.version, s) := by
  simp only [answer, handleAuthenticated, handleGet, h]
  rfl

variable (cfg draws sess req s) in
theorem answer_userTarget (h : getRoute (pathOnly (userTarget u d)) ≠ none) :
    ∃ a, UserAnswer req.version a ∧
      (answer cfg draws sess req (userTarget u d) s).1 = a.toResponse req.version := by
  obtain ⟨rest, hrest⟩ := pathOnly_userTarget u d
  have hret := returns_users cfg sess { req with method := .get, target := userTarget u d } hrest h
  refine ⟨_, hret.run (Call.exec cfg) s, ?_⟩
  simp only [answer, handleAuthenticated]

theorem answer_userTarget_ne {a : Handled} (hb : BundleAnswer req.version a) :
    (answer cfg draws sess req (userTarget u d) s).1 ≠ a.toResponse req.version := by
  by_cases h : getRoute (pathOnly (userTarget u d)) = none
  · rw [answer_of_none h]
    exact hb.ne_unhandled.symm
  · obtain ⟨a', ha', he⟩ := answer_userTarget cfg draws sess req s h
    rw [he]
    exact ha'.ne_bundle hb

variable (cfg draws sess req s) in
theorem answer_deviceTarget (hd : '/' ∉ d.toList) (hq : '?' ∉ d.toList) :
    ∃ a, BundleAnswer req.version a ∧
      (answer cfg draws sess req (deviceTarget d) s).1 = a.toResponse req.version := by
  refine ⟨_, ?_, rfl⟩
  simp only [handleAuthenticated, handleGet, getRoute_deviceTarget hd hq]
  exact ends_getPrekeyBundleOfDevice d

variable (cfg draws sess req u s) in
/-- The routes agree exactly if neither of them is found, which takes a device id of one user that
has a question mark in it. -/
theorem agree_iff (hd : '/' ∉ d.toList) : Agree cfg draws sess req u d s ↔
    SoleOwner u d s.db ∧ '?' ∈ d.toList ∧ getRoute (pathOnly (userTarget u d)) = none := by
  constructor
  · rintro ⟨hsole, hseveral⟩
    have howner : SoleOwner u d s.db := by
      by_contra hn
      have he := congrArg Prod.fst (hseveral hn)
      exact answer_userTarget_ne (ends_getPrekeyBundle u d) he
    have he := congrArg Prod.fst (hsole howner)
    have hq : '?' ∈ d.toList := by
      by_contra hq
      obtain ⟨a, ha, hdev⟩ := answer_deviceTarget cfg draws sess req s hd hq
      rw [hdev] at he
      exact answer_userTarget_ne ha he
    refine ⟨howner, hq, ?_⟩
    by_contra hroute
    obtain ⟨a, ha, huser⟩ := answer_userTarget cfg draws sess req s hroute
    rw [huser, answer_of_none (getRoute_deviceTarget_of_mem hd hq)] at he
    exact ha.ne_unhandled he
  · rintro ⟨howner, hq, hroute⟩
    refine ⟨fun _ => ?_, fun hn => absurd howner hn⟩
    rw [answer_of_none hroute, answer_of_none (getRoute_deviceTarget_of_mem hd hq)]

end Agreement

section Example

def registered (d : DeviceId) : Server where
  db := { users := [{ (default : UserRecord) with userId := "u" }]
          devices := [{ (default : DeviceRecord) with userId := "u", deviceId := d }] }

def get : HttpRequest := { method := .get, target := "" }

/-- With a question mark in the device id both targets end before it, and neither is found. -/
theorem question_agrees : Agree default {} default get "u" "d?" (registered "d?") :=
  (agree_iff default {} default get (registered "d?") "u" (show '/' ∉ "d?".toList by decide)).mpr
    ⟨by decide, by decide, by decide⟩

/-- The only device with its id has a bundle, but not under its user. -/
theorem registered_disagrees :
    SoleOwner "u" "d" (registered "d").db ∧
    (answer default {} default get (deviceTarget "d") (registered "d")).1.status = 200 ∧
    (answer default {} default get (userTarget "u" "d") (registered "d")).1.status = 404 ∧
    ¬ Agree default {} default get "u" "d" (registered "d") := by
  have hsole : SoleOwner "u" "d" (registered "d").db := by decide
  refine ⟨hsole, by decide, by decide, fun h => ?_⟩
  have hstatus := congrArg (·.1.status) (h.1 hsole)
  exact absurd hstatus (by decide)

end Example

end VoxServer.BundleRoutes
