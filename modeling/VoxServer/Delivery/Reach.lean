import VoxServer.Common.Uuid
import VoxServer.Net.Permitted

/-! # Whom envelopes reach

An envelope is pushed only to connections that were opened with a valid token of the device
it is for, and that device belongs to somebody whom the conversation delivers to. Between
the two stands the key of the device, a text with a separator that user ids never contain.
-/

namespace VoxServer.Reach

open Interleaving Http

section Registry

variable {key : String} {message : PushMessage} {s : Server}

theorem senders_notify : (WsPushRegistry.notify key message s).senders = s.senders := by
  unfold WsPushRegistry.notify
  split <;> rfl

theorem of_mem_pushed_notify {p : Push} (h : p ∈ (WsPushRegistry.notify key message s).pushed) :
    p ∈ s.pushed ∨ s.senders key = some p.connection ∧ p.key = key ∧ p.message = message := by
  unfold WsPushRegistry.notify at h
  split at h
  · exact .inl h
  · rename_i n hn
    rcases List.mem_append.mp h with h | h
    · exact .inl h
    · obtain rfl := List.mem_singleton.mp h
      exact .inr ⟨hn, rfl, rfl⟩

variable (cfg : ServerConfig) {c : Call}

theorem senders_exec {n : ℕ} (h : (c.exec cfg s).2.senders key = some n) :
    s.senders key = some n ∨ c = .wsPush (.register key n) := by
  cases c with
  | wsPush a =>
    cases a with
    | register k m =>
      change Function.update s.senders k (some m) key = some n at h
      by_cases hk : key = k
      · subst hk
        rw [Function.update_self] at h
        exact .inr (by rw [Option.some.inj h])
      · rw [Function.update_of_ne hk] at h
        exact .inl h
    | unregister k =>
      change Function.update s.senders k none key = some n at h
      by_cases hk : key = k
      · subst hk
        rw [Function.update_self] at h
        cases h
      · rw [Function.update_of_ne hk] at h
        exact .inl h
    | notify k json => exact .inl (senders_notify ▸ h)
  | delivery a =>
    left
    cases a with
    | enqueue u d q =>
      simp only [Call.exec, DeliveryCall.exec, DeliveryManager.enqueue] at h
      split at h
      · exact h
      · exact (senders_notify ▸ h :)
    | _ => exact h
  | blobs a =>
    obtain ⟨bs, he⟩ := a.exec_frame s
    simp only [Call.exec, he] at h
    exact .inl h
  | _ => exact .inl h

/-- What is pushed goes to the connection that is registered under its key, and an envelope is
pushed when it is queued. -/
theorem of_mem_pushed_exec {p : Push} (h : p ∈ (c.exec cfg s).2.pushed) :
    p ∈ s.pushed ∨ s.senders p.key = some p.connection ∧ ∀ q, p.message = .envelope q →
      ∃ u d, c = .delivery (.enqueue u d q) ∧ p.key = deviceScopeKey u d := by
  cases c with
  | wsPush a =>
    cases a with
    | notify k json =>
      refine (of_mem_pushed_notify h).imp_right ?_
      rintro ⟨hn, rfl, hm⟩
      exact ⟨hn, fun q hq => by cases hm.symm.trans hq⟩
    | _ => exact .inl h
  | delivery a =>
    cases a with
    | enqueue u d q =>
      simp only [Call.exec, DeliveryCall.exec, DeliveryManager.enqueue] at h
      split at h
      · exact .inl h
      · refine (of_mem_pushed_notify h).imp_right ?_
        rintro ⟨hn, hkey, hm⟩
        refine ⟨hkey ▸ hn, fun q' hq => ⟨u, d, ?_, hkey⟩⟩
        rw [PushMessage.envelope.inj (hm.symm.trans hq)]
    | _ => exact .inl h
  | blobs a =>
    obtain ⟨bs, he⟩ := a.exec_frame s
    simp only [Call.exec, he] at h
    exact .inl h
  | _ => exact .inl h

end Registry

section Provenance

variable (cfg : ServerConfig) (ops : ℕ → Option NetOp) (tr : List Ev)

/-- The connection was opened with a valid token of the session. -/
def Opened (n : ℕ) (sess : SessionRecord) : Prop :=
  ∃ i token, ops i = some (.connect token n) ∧ ValidToken cfg token sess (localTrace i tr)

/-- The key is that of a session that the connection was opened for. -/
def OpenedUnder (key : String) (n : ℕ) : Prop :=
  ∃ sess, Opened cfg ops tr n sess ∧ key = deviceScopeKey sess.userId sess.deviceId

/-- A request that was signed in as the sender has sent the envelope to the device. -/
def SentTo (q : QueuedEnvelope) (u : UserId) (d : DeviceId) : Prop :=
  ∃ i req draws, ops i = some (.http req draws) ∧
    (∃ sess, SignedIn cfg req sess (localTrace i tr) ∧ sess.userId = q.senderUserId ∧
      sess.deviceId = q.senderDeviceId) ∧
    MayPost q.conversationId q.senderUserId (localTrace i tr) ∧ Addressed u q d (localTrace i tr)

/-- Connections are registered under the keys of their sessions, and what was pushed went to such
a connection. -/
structure Routed (s : Server) : Prop where
  senders : ∀ key n, s.senders key = some n → OpenedUnder cfg ops tr key n
  pushed : ∀ p ∈ s.pushed, OpenedUnder cfg ops tr p.key p.connection
  envelopes : ∀ p ∈ s.pushed, ∀ q, p.message = .envelope q →
    ∃ u d, p.key = deviceScopeKey u d ∧ SentTo cfg ops tr q u d

variable {cfg ops tr}

theorem OpenedUnder.append {key : String} {n : ℕ} (h : OpenedUnder cfg ops tr key n)
    (tr' : List Ev) : OpenedUnder cfg ops (tr ++ tr') key n := by
  obtain ⟨sess, ⟨i, token, hop, hvalid⟩, hkey⟩ := h
  exact ⟨sess, ⟨i, token, hop, .stable (localTrace_subset_append i tr tr') hvalid⟩, hkey⟩

theorem SentTo.append {q : QueuedEnvelope} {u : UserId} {d : DeviceId}
    (h : SentTo cfg ops tr q u d) (tr' : List Ev) : SentTo cfg ops (tr ++ tr') q u d := by
  obtain ⟨i, req, draws, hop, ⟨sess, hsess, hu, hd⟩, hmay, hto⟩ := h
  have hsub := localTrace_subset_append i tr tr'
  exact ⟨i, req, draws, hop, ⟨sess, .stable hsub hsess, hu, hd⟩, .stable hsub hmay,
    .stable hsub hto⟩

theorem openedUnder_of_permits {i : ℕ} {o : NetOp} {key : String} {n : ℕ} (hop : ops i = some o)
    (h : o.Permits cfg (localTrace i tr) (.wsPush (.register key n))) :
    OpenedUnder cfg ops tr key n := by
  cases o with
  | http req draws =>
    cases h with
    | quiet hc => cases hc
    | enters hes h => cases h with | quiet hc => cases hc
    | acts hes hsess h => cases h with | quiet hc => cases hc
  | connect token m =>
    cases h with
    | quiet hc => cases hc
    | @register sess h => exact ⟨sess, ⟨i, token, hop, h⟩, rfl⟩
  | disconnect u d => cases h
  | maintenance => cases h

theorem sentTo_of_permits {i : ℕ} {o : NetOp} {q : QueuedEnvelope} {u : UserId} {d : DeviceId}
    (hop : ops i = some o)
    (h : o.Permits cfg (localTrace i tr) (.delivery (.enqueue u d q))) :
    SentTo cfg ops tr q u d := by
  cases o with
  | http req draws =>
    change Permitted cfg req draws (localTrace i tr) _ at h
    generalize hes : localTrace i tr = es at h
    cases h with
    | quiet hc => cases hc
    | enters hes' h => cases h with | quiet hc => cases hc
    | @acts es₁ es₂ sess _ hes' hsess h =>
      have h₁ : es₁ ⊆ localTrace i tr := by
        rw [hes, hes']
        exact List.subset_append_left _ _
      have h₂ : es₂ ⊆ localTrace i tr := by
        rw [hes, hes']
        exact List.subset_append_right _ _
      cases h with
      | quiet hc => cases hc
      | enqueue hu hd hmay hto =>
        rw [← hu] at hmay
        exact ⟨i, req, draws, hop, ⟨sess, .stable h₁ hsess, hu.symm, hd.symm⟩, .stable h₂ hmay,
          .stable h₂ hto⟩
  | _ => cases housekeeping_of_permits (by simp) h

theorem Routed.exec {i : ℕ} {o : NetOp} {c : Call} {s : Server} (hop : ops i = some o)
    (h : o.Permits cfg (localTrace i tr) c) (hs : Routed cfg ops tr s) :
    Routed cfg ops tr (c.exec cfg s).2 where
  senders key n hn := by
    rcases senders_exec cfg hn with hn | rfl
    · exact hs.senders key n hn
    · exact openedUnder_of_permits hop h
  pushed p hp := by
    rcases of_mem_pushed_exec cfg hp with hp | ⟨hn, -⟩
    · exact hs.pushed p hp
    · exact hs.senders _ _ hn
  envelopes p hp q hq := by
    rcases of_mem_pushed_exec cfg hp with hp | ⟨-, hsent⟩
    · exact hs.envelopes p hp q hq
    · obtain ⟨u, d, rfl, hkey⟩ := hsent q hq
      exact ⟨u, d, hkey, sentTo_of_permits hop h⟩

theorem Routed.append {s : Server} (h : Routed cfg ops tr s) (tr' : List Ev) :
    Routed cfg ops (tr ++ tr') s where
  senders key n hn := (h.senders key n hn).append tr'
  pushed p hp := (h.pushed p hp).append tr'
  envelopes p hp q hq := by
    obtain ⟨u, d, hkey, hsent⟩ := h.envelopes p hp q hq
    exact ⟨u, d, hkey, hsent.append tr'⟩

end Provenance

section Runs

def Separable (db : Database) : Prop := ∀ r ∈ db.users, kSep ∉ r.userId.toList

theorem kSep_not_mem_generateUuid (high low : UInt64) :
    kSep ∉ (Uuid.generateUuid high low).toList := by
  intro h
  have hdigit : ¬ (Text.isHexDigit kSep ∨ kSep = '-') := by decide
  exact hdigit (Uuid.isHexDigit_or_of_mem_generateUuid h)

variable (cfg : ServerConfig) (init : Server) (acts : List NetAct)

theorem routed_run (hsenders : ∀ key, init.senders key = none) (hpushed : init.pushed = []) :
    Routed cfg (opAt (serveHttp cfg init acts)) (serveHttp cfg init acts).trace
      (serveHttp cfg init acts).state := by
  refine ((httpServer cfg).always_invariant (permitted_run cfg init acts)
    (I := Routed cfg (opAt (serveHttp cfg init acts))) ?_ ?_ ?_).1
  · exact ⟨fun key n h => by simp [hsenders] at h, by simp [hpushed], by simp [hpushed]⟩
  · rintro tr s i c ⟨o, hop, hperm⟩ hs
    exact (hs.exec hop hperm).append _
  · intro tr s t hs
    exact ⟨hs.senders, hs.pushed, hs.envelopes⟩

theorem separable_run (hids : Separable init.db)
    (hdrawn : ∀ req draws, .spawn (.http req draws) ∈ acts →
      ∃ high low, draws.uuid = Uuid.generateUuid high low) :
    Always (fun _ ev => Separable ev.pre.db) (serveHttp cfg init acts).trace := by
  refine ((httpServer cfg).always_invariant (permitted_run cfg init acts)
    (I := fun _ s => Separable s.db) hids ?_ (fun _ _ _ hs => hs)).2
  rintro tr s i c ⟨o, hop, hperm⟩ hs r hr
  rcases Call.userId_of_exec cfg hr with ⟨r₀, hr₀, hid⟩ | ⟨r₀, rfl, hid⟩
  · rw [← hid]
    exact hs r₀ hr₀
  · obtain ⟨req, draws, -, -, rfl, -, huuid, -⟩ := registration_of_permits hperm
    obtain ⟨high, low, hgen⟩ := hdrawn req draws (spawn_of_opAt hop)
    rw [← hid, huuid, hgen]
    exact kSep_not_mem_generateUuid high low

variable {cfg} {ops : ℕ → Option NetOp} {tr : List Ev}

theorem Opened.separable {n : ℕ} {sess : SessionRecord} (h : Opened cfg ops tr n sess)
    (htr : ∀ ev ∈ tr, ev.pre.db.Valid ∧ Separable ev.pre.db) : kSep ∉ sess.userId.toList := by
  obtain ⟨i, token, -, hvalid⟩ := h
  obtain ⟨ev, hev, hfound⟩ := hvalid.found
  obtain ⟨hv, hids⟩ := htr ev (mem_of_mem_localTrace hev).1
  obtain ⟨r, hr, hid⟩ := hv.sessions_user sess (SessionRepository.findByAccessToken_some hfound).1
  rw [← hid]
  exact hids r hr

theorem SentTo.separable {q : QueuedEnvelope} {u : UserId} {d : DeviceId}
    (h : SentTo cfg ops tr q u d) (htr : ∀ ev ∈ tr, ev.pre.db.Valid ∧ Separable ev.pre.db) :
    kSep ∉ u.toList := by
  obtain ⟨i, req, draws, -, -, -, hto⟩ := h
  obtain ⟨ev, hev, dev, hdev, -⟩ := hto.device
  obtain ⟨hv, hids⟩ := htr ev (mem_of_mem_localTrace hev).1
  obtain ⟨hmem, rfl⟩ := DeviceRepository.mem_getDevicesForUser.mp hdev
  obtain ⟨r, hr, hid⟩ := hv.devices_user dev hmem
  rw [← hid]
  exact hids r hr

variable (cfg)

/-- In every run from a server without connections, whatever is pushed goes to a connection that
was opened with a valid token of the session under whose key it is pushed, and an envelope was
sent to the very user and device of that session: one that the conversation delivers to. -/
theorem envelopes_reach_recipients (hv : init.db.Valid) (hids : Separable init.db)
    (hsenders : ∀ key, init.senders key = none) (hpushed : init.pushed = [])
    (hdrawn : ∀ req draws, .spawn (.http req draws) ∈ acts →
      ∃ high low, draws.uuid = Uuid.generateUuid high low) :
    ∀ p ∈ (serveHttp cfg init acts).state.pushed, ∃ sess,
      Opened cfg (opAt (serveHttp cfg init acts)) (serveHttp cfg init acts).trace p.connection
        sess ∧
      p.key = deviceScopeKey sess.userId sess.deviceId ∧
      ∀ q, p.message = .envelope q →
        SentTo cfg (opAt (serveHttp cfg init acts)) (serveHttp cfg init acts).trace q sess.userId
          sess.deviceId := by
  intro p hp
  have hrouted := routed_run cfg init acts hsenders hpushed
  obtain ⟨sess, hopened, hkey⟩ := hrouted.pushed p hp
  refine ⟨sess, hopened, hkey, fun q hq => ?_⟩
  obtain ⟨u, d, hkey', hsent⟩ := hrouted.envelopes p hp q hq
  have htr : ∀ ev ∈ (serveHttp cfg init acts).trace, ev.pre.db.Valid ∧ Separable ev.pre.db := by
    intro ev hev
    obtain ⟨tr₁, tr₂, he⟩ := List.append_of_mem hev
    exact ⟨(serveHttp_valid hv acts).2 ev hev, (he ▸ separable_run cfg init acts hids hdrawn).at⟩
  obtain ⟨rfl, rfl⟩ := (deviceScopeKey_inj (hopened.separable htr) (hsent.separable htr)).mp
    (hkey.symm.trans hkey')
  exact hsent

end Runs

section Example

def twoDevices : Server where
  db :=
    { users := [{ (default : UserRecord) with userId := "a", username := "a" }]
      devices := [{ (default : DeviceRecord) with deviceId := "d", userId := "a" },
        { (default : DeviceRecord) with deviceId := "e", userId := "a" }]
      sessions := [⟨"s", "a", "d", "t", "r", 900, 2592000, 0, none⟩,
        ⟨"s'", "a", "e", "t'", "r'", 900, 2592000, 0, none⟩]
      conversations := [⟨"c", .group, "a", 0, "", 0⟩]
      conversationMembers := [⟨"c", "a", .owner, 0, none⟩] }

def sendBody : String :=
  "\x7b\"device_id\":\"d\",\"ciphertext\":\"x\",\"envelope_id\":\"m\"," ++
    "\"conversation_id\":\"c\"\x7d"

def writing : ServerConfig := .withBodies
  [(sendBody, .obj [("device_id", .str "d"), ("ciphertext", .str "x"), ("envelope_id", .str "m"),
    ("conversation_id", .str "c")])]

def connectAndSend : List NetAct :=
  .spawn (.connect "t'" 7) :: List.replicate 3 (.run 0) ++
  .spawn (.http { method := .post, target := "/v1/messages/send", body := sendBody, version := 11
                  authorization := some "Bearer t" } { uuid := Uuid.generateUuid 1 2 }) ::
    List.replicate 11 (.run 1)

theorem sent_to_second_device :
    ∃ sess, Opened writing (opAt (serveHttp writing twoDevices connectAndSend))
        (serveHttp writing twoDevices connectAndSend).trace 7 sess ∧
      deviceScopeKey "a" "e" = deviceScopeKey sess.userId sess.deviceId ∧
      ∀ q, PushMessage.envelope ⟨"m", "c", "a", "d", "x", 0, 0, none⟩ = .envelope q →
        SentTo writing (opAt (serveHttp writing twoDevices connectAndSend))
          (serveHttp writing twoDevices connectAndSend).trace q sess.userId sess.deviceId := by
  have hp : ⟨deviceScopeKey "a" "e", 7, .envelope ⟨"m", "c", "a", "d", "x", 0, 0, none⟩⟩ ∈
      (serveHttp writing twoDevices connectAndSend).state.pushed := by decide
  have hv : twoDevices.db.Valid := by decide
  have hids : Separable twoDevices.db := by
    simp only [Separable, twoDevices, List.mem_singleton, forall_eq]
    decide
  refine envelopes_reach_recipients writing twoDevices connectAndSend hv hids (fun _ => rfl) rfl
    ?_ _ hp
  intro req draws h
  simp only [connectAndSend, List.replicate, List.cons_append, List.nil_append, List.mem_cons,
    reduceCtorEq, Action.spawn.injEq, NetOp.http.injEq, List.not_mem_nil, false_or, or_false] at h
  obtain ⟨-, rfl⟩ := h
  exact ⟨1, 2, rfl⟩

end Example

end VoxServer.Reach
