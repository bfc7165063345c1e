import VoxServer.Net.HttpCalls

/-! # Key material

`Register`, `Login` and `ChangePassword` refuse keys that are empty. The two routes that
replace keys, `PUT /v1/sync/key-bundle` and `PUT …/signed-prekey`, do not: a field that
their body lacks, or has with another type, is read as the empty string and stored. As
long as no such request leaves a field out, all keys are there.
-/

namespace VoxServer.KeyMaterial

open Interleaving Prog Http

/-- No user and no device has a key that is empty. -/
def NoneBlank (db : Database) : Prop :=
  (∀ u ∈ db.users, u.bundle.Whole) ∧ ∀ d ∈ db.devices, d.Keyed

instance (db : Database) : Decidable (NoneBlank db) := inferInstanceAs (Decidable (_ ∧ _))

/-- A request that replaces keys has all of them in its body. -/
def ReplacesWhole (cfg : ServerConfig) (req : HttpRequest) : Prop :=
  ∀ self o, req.method = .put → parseBody cfg req = .ok o →
    (putRoute self (pathOnly req.target) = some .keyBundle → (keyBundle cfg o 0).Whole) ∧
    ∀ u d, putRoute self (pathOnly req.target) = some (.signedPrekey u d) →
      jsonField o "signed_prekey_public" ≠ "" ∧ jsonField o "signed_prekey_signature" ≠ ""

def writesWhole : Call → Prop
  | .users (.createUser u) => u.bundle.Whole
  | .users (.setSyncKeyBundle _ b) => b.Whole
  | .devices (.registerDevice d) => d.Keyed
  | .devices (.updateSignedPrekey _ _ pub sig _) => pub ≠ "" ∧ sig ≠ ""
  | _ => True

section Calls

variable (cfg : ServerConfig) {c : Call} {s : Server}

theorem whole_exec (hc : writesWhole c) (h : ∀ u ∈ s.db.users, u.bundle.Whole) :
    ∀ u ∈ (c.exec cfg s).2.db.users, u.bundle.Whole := by
  intro u hu
  cases c with
  | users a =>
    rcases UserCall.bundle_of_exec hu with ⟨u₀, hu₀, -, he⟩ | ⟨u₀, rfl, he⟩ | rfl
    · rw [he]
      exact h u₀ hu₀
    · rw [he]
      exact hc
    · exact hc
  | _ => exact h u (Call.exec_users_subset cfg (by simp) hu)

theorem keyed_exec (hc : writesWhole c) (h : ∀ d ∈ s.db.devices, d.Keyed) :
    ∀ d ∈ (c.exec cfg s).2.db.devices, d.Keyed := by
  intro d hd
  cases c with
  | devices a =>
    rcases DeviceCall.publicKeys_of_exec hd with
      ⟨d₀, hd₀, he⟩ | rfl | ⟨u, i, pub, sig, now, rfl, d₀, hd₀, he⟩
    · obtain ⟨h₁, h₂, h₃⟩ : d.identityKeyPublic = d₀.identityKeyPublic ∧ _ ∧ _ := by
        simpa only [DeviceRecord.publicKeys, Prod.mk.injEq] using he
      have hk := h d₀ hd₀
      rwa [DeviceRecord.Keyed, ← h₁, ← h₂, ← h₃] at hk
    · exact hc
    · obtain ⟨h₁, rfl, rfl⟩ : d.identityKeyPublic = d₀.identityKeyPublic ∧ _ ∧ _ := by
        simpa only [DeviceRecord.publicKeys, Prod.mk.injEq] using he
      refine ⟨?_, hc⟩
      rw [h₁]
      exact (h d₀ hd₀).1
  | _ => exact h d (Call.exec_devices_subset cfg (by simp) hd)

theorem NoneBlank.exec (hc : writesWhole c) (h : NoneBlank s.db) :
    NoneBlank (c.exec cfg s).2.db :=
  ⟨whole_exec cfg hc h.1, keyed_exec cfg hc h.2⟩

theorem writesWhole_of_plain (hc : c.plain) : writesWhole c := by
  unfold writesWhole
  split
  case h_5 => trivial
  all_goals cases hc

theorem writesWhole_of_issues {req : HttpRequest} {draws : Draws} (hreq : ReplacesWhole cfg req)
    (hc : Issues cfg req draws c) : writesWhole c := by
  cases hc with
  | plain hc => exact writesWhole_of_plain hc
  | createUser _ hu => exact hu
  | registerDevice hd => exact hd
  | changeBundle _ _ hb => exact hb
  | putBundle hm hroute ho => exact (hreq _ _ hm ho).1 hroute
  | signedPrekey hm hroute ho => exact (hreq _ _ hm ho).2 _ _ hroute
  | storeEnvelope => trivial
  | enqueue => trivial
  | deleteUser => trivial

end Calls

/-- However requests interleave, no key is ever empty, provided that the requests that replace keys
have all of them in their bodies. -/
theorem keys_never_blank (cfg : ServerConfig) (acts : List NetAct)
    (hacts : ∀ req draws, .spawn (.http req draws) ∈ acts → ReplacesWhole cfg req.toHttpRequest) :
    NoneBlank (serveHttp cfg {} acts).state.db := by
  refine ((httpServer cfg).state_invariant (J := fun s => NoneBlank s.db) (P := writesWhole)
    ⟨by simp, by simp⟩ (fun c s hc hs => hs.exec cfg hc) (fun _ _ hs => hs) acts ?_).1
  intro o ho
  refine o.only (fun c => writesWhole_of_plain) (fun _ => trivial) ?_
  rintro req draws rfl c hc
  exact writesWhole_of_issues cfg (hacts req draws ho) hc

def registerBody : String :=
  "\x7b\"username\":\"alice\",\"password_derived_value\":\"p\"," ++
    "\"identity_key_public\":\"k\",\"signed_prekey_public\":\"k\"," ++
    "\"signed_prekey_signature\":\"k\",\"wrapped_sync_key\":\"w\"," ++
    "\"sync_wrap_salt\":\"w\",\"sync_wrap_params\":\"w\"\x7d"

def bundleBody : String :=
  "\x7b\"wrapped_sync_key\":\"v\",\"sync_wrap_salt\":\"v\",\"sync_wrap_params\":\"v\"\x7d"

def prekeyBody : String :=
  "\x7b\"signed_prekey_public\":\"l\",\"signed_prekey_signature\":\"l\"\x7d"

def passwordBody : String :=
  "\x7b\"current_password_derived_value\":\"p\",\"new_password_derived_value\":\"q\"," ++
    "\"wrapped_sync_key\":\"x\",\"sync_wrap_salt\":\"x\",\"sync_wrap_params\":\"x\"\x7d"

def keyBodies : ServerConfig := .withBodies
  [(registerBody, .obj [("username", .str "alice"), ("password_derived_value", .str "p"),
      ("identity_key_public", .str "k"), ("signed_prekey_public", .str "k"),
      ("signed_prekey_signature", .str "k"), ("wrapped_sync_key", .str "w"),
      ("sync_wrap_salt", .str "w"), ("sync_wrap_params", .str "w")]),
    (bundleBody, .obj [("wrapped_sync_key", .str "v"), ("sync_wrap_salt", .str "v"),
      ("sync_wrap_params", .str "v")]),
    (prekeyBody, .obj [("signed_prekey_public", .str "l"), ("signed_prekey_signature", .str "l")]),
    (passwordBody, .obj [("current_password_derived_value", .str "p"),
      ("new_password_derived_value", .str "q"), ("wrapped_sync_key", .str "x"),
      ("sync_wrap_salt", .str "x"), ("sync_wrap_params", .str "x")]),
    ("\x7b\x7d", .obj [])]

def registers : List NetAct :=
  .spawn (.http { method := .post, target := "/v1/register", body := registerBody, version := 11 }
    { salt := some "s", uuid := "a", deviceUuid := "d", fresh := ⟨"t", "r", "s"⟩ }) ::
  List.replicate 6 (.run 0)

def inSession (method : Verb) (target body : String) : NetOp :=
  .http { method, target, body, version := 11, authorization := some "Bearer t" }
    { salt := some "s" }

def replaceKeys (bundle prekey : String) : List NetAct := registers ++
  .spawn (inSession .put "/v1/sync/key-bundle" bundle) :: List.replicate 5 (.run 1) ++
  .spawn (inSession .put "/v1/devices/d/signed-prekey" prekey) :: List.replicate 5 (.run 2)

set_option maxRecDepth 8000 in
theorem replaceKeys_whole :
    ((serveHttp keyBodies {} (replaceKeys bundleBody prekeyBody)).state.db.users.map fun u =>
      u.wrappedSyncKey) = ["v"] ∧
    NoneBlank (serveHttp keyBodies {} (replaceKeys bundleBody prekeyBody)).state.db := by
  refine ⟨by decide, keys_never_blank keyBodies _ ?_⟩
  intro req draws hreq self o hm ho
  simp only [replaceKeys, registers, inSession, List.replicate, List.cons_append,
    List.nil_append, List.mem_cons, reduceCtorEq, Action.spawn.injEq, NetOp.http.injEq,
    List.not_mem_nil, false_or, or_false]
    at hreq
  rcases hreq with ⟨rfl, -⟩ | ⟨rfl, -⟩ | ⟨rfl, -⟩
  · cases hm
  · obtain rfl : _ = o := Except.ok.inj ho
    exact ⟨fun _ => by decide, nofun⟩
  · obtain rfl : _ = o := Except.ok.inj ho
    exact ⟨nofun, fun _ _ _ => by decide⟩

set_option maxRecDepth 8000 in
/-- An empty object in place of each replaces all keys by empty ones. -/
theorem replaceKeys_blank :
    (∃ u ∈ (serveHttp keyBodies {} (replaceKeys "\x7b\x7d" "\x7b\x7d")).state.db.users,
      ¬ u.bundle.Whole) ∧
    ∃ d ∈ (serveHttp keyBodies {} (replaceKeys "\x7b\x7d" "\x7b\x7d")).state.db.devices,
      ¬ d.Keyed := by
  decide

end VoxServer.KeyMaterial
