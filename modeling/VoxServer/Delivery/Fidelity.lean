import Mathlib.Data.List.TakeWhile
import VoxServer.Net.HttpCalls
import VoxServer.Net.WebSocketSession

/-! # What comes back of an envelope

The fields of a sent envelope pass through the extraction from the body, the row or the
queued copy, and the object that a listing or a push has of it. The extraction can change
them: a text is cut at its first zero byte, an integer is narrowed, and an empty id is
replaced by a fresh one. A push can change as well when it is written, as its text is gone
by the time that the socket is ready for the rest of it. What comes back is what was sent
exactly if none of this happens.
-/

namespace VoxServer.Fidelity

open Interleaving Prog Http

/-- The fields of an envelope that its sender chooses. -/
structure Content where
  ciphertext : String
  envelopeId : String
  conversationId : String
  envelopeType : ℤ
  orderingEpoch : ℤ
  deriving DecidableEq, Repr

def Content.In (m : Content) (o : List (String × Json)) : Prop :=
  o.lookup "ciphertext" = some (.str m.ciphertext) ∧
  o.lookup "envelope_id" = some (.str m.envelopeId) ∧
  o.lookup "conversation_id" = some (.str m.conversationId) ∧
  o.lookup "envelope_type" = some (.int m.envelopeType) ∧
  o.lookup "ordering_epoch" = some (.int m.orderingEpoch)

/-- No text has a zero byte, the id is not empty and the integers are of their types. -/
def Content.Exact (m : Content) : Prop :=
  '\x00' ∉ m.ciphertext.toList ∧ '\x00' ∉ m.envelopeId.toList ∧ m.envelopeId ≠ "" ∧
  '\x00' ∉ m.conversationId.toList ∧ (-2 ^ 31 ≤ m.envelopeType ∧ m.envelopeType < 2 ^ 31) ∧
  (-2 ^ 63 ≤ m.orderingEpoch ∧ m.orderingEpoch < 2 ^ 63)

instance (m : Content) : Decidable m.Exact := inferInstanceAs (Decidable (_ ∧ _))

/-- The value has the fields that were sent, and the sender of the session. -/
def Carries (r : Json) (m : Content) (sess : SessionRecord) : Prop :=
  ∃ fields, r = .obj fields ∧ m.In fields ∧
    fields.lookup "sender_user_id" = some (.str sess.userId) ∧
    fields.lookup "sender_device_id" = some (.str sess.deviceId)

/-- What is drawn as an id is not empty and has no zero byte. -/
def Drawn (uuid : String) : Prop := uuid ≠ "" ∧ '\x00' ∉ uuid.toList

def entries : Json → List Json
  | .obj fields =>
    match fields.lookup "envelopes" with
    | some (.arr rs) => rs
    | _ => []
  | _ => []

def HasId (i : EnvelopeId) (r : Json) : Prop :=
  ∃ fields, r = .obj fields ∧ fields.lookup "envelope_id" = some (.str i)

/-- Whether the request lists the pending envelopes of a device, or those of a conversation. -/
def listing (req : HttpRequest) : Bool :=
  match req.method, getRoute (pathOnly req.target) with
  | .get, some .pending => true
  | .get, some (.envelopes _) => true
  | _, _ => false

def listed? (ev : Ev) : Option (List EnvelopeRecord) :=
  match ev.call with
  | .envelopes (.getPendingForDeviceCursored u d cursor limit) =>
    some (EnvelopeRepository.getPendingForDeviceCursored u d cursor limit ev.pre.db).envelopes
  | .envelopes (.listForConversation c since limit) =>
    some (EnvelopeRepository.listForConversation c since limit ev.pre.db)
  | .envelopes (.listForConversationCursored c cursor limit) =>
    some (EnvelopeRepository.listForConversationCursored c cursor limit ev.pre.db).envelopes
  | _ => none

def Stores (i : ℕ) (e : EnvelopeRecord) (ev : Ev) : Prop :=
  ev.tid = i ∧ ev.call = .envelopes (.storeEnvelope e) ∧
    (EnvelopeRepository.storeEnvelope e ev.pre.db).1 = .ok ()

def Gone (cfg : ServerConfig) (i : EnvelopeId) (ev : Ev) : Prop :=
  ∀ e ∈ (ev.call.exec cfg ev.pre).2.db.encryptedEnvelopes, e.envelopeId ≠ i

def Sent (cfg : ServerConfig) (run : NetRun) (i : ℕ) (m : Content) (sess : SessionRecord) : Prop :=
  ∃ req draws o n v, run.threads[i]? = some ⟨.http req draws, .ret ⟨n, 200, .json v⟩⟩ ∧
    req.method = .post ∧ pathOnly req.target = "/v1/messages/send" ∧
    parseBody cfg req.toHttpRequest = .ok o ∧ m.In o ∧
    sessionOf (localTrace i run.trace) = some sess

/-- The entries that show the envelope that an operation sends, in listings made while it is
stored. -/
inductive Lists (cfg : ServerConfig) (run : NetRun) (i : ℕ) : Json → Prop
  | intro {req : IncomingRequest} {draws : Draws} {n : ℕ} {v r : Json} {ev : Ev}
      {tr₁ tr₂ : List Ev} {e : EnvelopeRecord} : listing req.toHttpRequest →
      run.threads[ev.tid]? = some ⟨.http req draws, .ret ⟨n, 200, .json v⟩⟩ →
      run.trace = tr₁ ++ ev :: tr₂ → (listed? ev).isSome →
      Since (Stores i e) (Gone cfg e.envelopeId) tr₁ → r ∈ entries v → HasId e.envelopeId r →
      Lists cfg run i r

/-- The operation queues the envelope for a device, and the hook pushes it. -/
def Pushes (run : NetRun) (i : ℕ) (q : QueuedEnvelope) : Prop :=
  ∃ ev ∈ run.trace, ev.tid = i ∧ ∃ u d, ev.call = .delivery (.enqueue u d q)

def pushText (cfg : ServerConfig) (q : QueuedEnvelope) : String := cfg.serializeJson (pushJson q)

/-- The device reads the value from what is written of the push. -/
def Receives (cfg : ServerConfig) (q : QueuedEnvelope) (taken : ℕ) (memory : ℕ → Char) (r : Json) :
    Prop :=
  cfg.parseJson (WebSocketSession.asyncWrite (pushText cfg q) taken memory) = .ok r

/-- No text with a zero byte is one of a value, and pushes are read as they are serialized. -/
structure JsonExact (cfg : ServerConfig) (run : NetRun) (i : ℕ) : Prop where
  nul : ∀ text v, cfg.parseJson text = .ok v → '\x00' ∉ text.toList
  pushes : ∀ q, Pushes run i q → cfg.parseJson (pushText cfg q) = .ok (pushJson q)

section Extraction

variable {m : Content} {o : List (String × Json)}

theorem cString_eq_self {s : String} : cString s = s ↔ '\x00' ∉ s.toList := by
  rw [cString, ← String.toList_inj, String.toList_ofList, List.takeWhile_eq_self_iff]
  constructor
  · intro h hmem
    simpa using h _ hmem
  · intro h c hc
    simp only [ne_eq, decide_not, Bool.not_eq_true', decide_eq_false_iff_not]
    rintro rfl
    exact h hc

theorem toInt32_toInt64_eq_self {n : ℤ} :
    toInt32 (toInt64 n) = n ↔ -2 ^ 31 ≤ n ∧ n < 2 ^ 31 := by
  unfold toInt32 toInt64
  constructor
  · intro h
    have hle := Int.le_bmod (x := n.bmod (2 ^ 64)) (m := 2 ^ 32) (by decide)
    have hlt := Int.bmod_lt (x := n.bmod (2 ^ 64)) (m := 2 ^ 32) (by decide)
    omega
  · rintro ⟨hle, hlt⟩
    have h64 : n.bmod (2 ^ 64) = n := Int.bmod_eq_of_le (by omega) (by omega)
    rw [h64]
    exact Int.bmod_eq_of_le (by omega) (by omega)

theorem jsonField_of_lookup {key s : String} (h : o.lookup key = some (.str s)) :
    jsonField o key = cString s := by
  simp [jsonField, jsonString, h, cString]

theorem jsonInt_of_lookup {key : String} {n : ℤ} (h : o.lookup key = some (.int n)) :
    jsonInt o key = some (toInt64 n) := by
  simp [jsonInt, h]

def storedId (uuid : String) (envelopeId : String) : EnvelopeId :=
  if cString envelopeId = "" then uuid else cString envelopeId

theorem storedId_eq_self {uuid i : String} (hu : Drawn uuid) :
    storedId uuid i = i ↔ '\x00' ∉ i.toList ∧ i ≠ "" := by
  unfold storedId
  split
  · rename_i hempty
    constructor
    · rintro rfl
      exact ⟨hu.2, hu.1⟩
    · rintro ⟨hzero, hne⟩
      exact absurd ((cString_eq_self.mpr hzero).symm.trans hempty) hne
  · rename_i hne
    rw [cString_eq_self]
    refine ⟨fun h => ⟨h, ?_⟩, fun h => h.1⟩
    rintro rfl
    exact hne rfl

def Content.extracted (m : Content) (uuid : String) : Content where
  ciphertext := cString m.ciphertext
  envelopeId := storedId uuid m.envelopeId
  conversationId := cString m.conversationId
  envelopeType := toInt32 (toInt64 m.envelopeType)
  orderingEpoch := toInt64 m.orderingEpoch

theorem extracted_eq_self {uuid : String} (hu : Drawn uuid) : m.extracted uuid = m ↔ m.Exact := by
  obtain ⟨ciphertext, envelopeId, conversationId, envelopeType, orderingEpoch⟩ := m
  simp only [Content.extracted, Content.Exact, Content.mk.injEq, cString_eq_self,
    storedId_eq_self hu, toInt32_toInt64_eq_self, toInt64_eq_self, InInt64]
  tauto

theorem Content.In.unique {m' : Content} (h : m.In o) (h' : m'.In o) : m = m' := by
  obtain ⟨h₁, h₂, h₃, h₄, h₅⟩ := h
  obtain ⟨h₁', h₂', h₃', h₄', h₅'⟩ := h'
  obtain ⟨ciphertext, envelopeId, conversationId, envelopeType, orderingEpoch⟩ := m
  simp_all

/-- An object with what was extracted carries what was sent exactly if the extraction is exact. -/
theorem carries_iff {fields : List (String × Json)} {sess : SessionRecord} {uuid : String}
    (hu : Drawn uuid) (hin : (m.extracted uuid).In fields)
    (huser : fields.lookup "sender_user_id" = some (.str sess.userId))
    (hdevice : fields.lookup "sender_device_id" = some (.str sess.deviceId)) :
    Carries (.obj fields) m sess ↔ m.Exact := by
  rw [← extracted_eq_self hu]
  constructor
  · rintro ⟨fields', he, hin', -⟩
    cases he
    exact hin.unique hin'
  · intro he
    rw [he] at hin
    exact ⟨fields, rfl, hin, huser, hdevice⟩

variable {cfg : ServerConfig} {sess : SessionRecord} {uuid : String} {now : Timestamp}

theorem envelopeJson_in (hm : m.In o) (hdevice : jsonField o "device_id" = sess.deviceId) :
    ∃ fields, envelopeJson (RelayService.newEnvelope cfg (sendRequest o sess)
        (storedId uuid m.envelopeId) now) = .obj fields ∧ (m.extracted uuid).In fields ∧
      fields.lookup "sender_user_id" = some (.str sess.userId) ∧
      fields.lookup "sender_device_id" = some (.str sess.deviceId) := by
  obtain ⟨h₁, -, h₃, h₄, h₅⟩ := hm
  rw [← hdevice]
  simp only [envelopeJson, RelayService.newEnvelope, sendRequest, jsonField_of_lookup h₁,
    jsonField_of_lookup h₃, jsonInt_of_lookup h₄, jsonInt_of_lookup h₅]
  exact ⟨_, rfl, ⟨rfl, rfl, rfl, rfl, rfl⟩, rfl, rfl⟩

theorem pushJson_in (hm : m.In o) (hdevice : jsonField o "device_id" = sess.deviceId) :
    ∃ fields, pushJson (RelayService.newQueued (sendRequest o sess)
        (storedId uuid m.envelopeId) now) = .obj fields ∧ (m.extracted uuid).In fields ∧
      fields.lookup "sender_user_id" = some (.str sess.userId) ∧
      fields.lookup "sender_device_id" = some (.str sess.deviceId) := by
  obtain ⟨h₁, -, h₃, h₄, h₅⟩ := hm
  rw [← hdevice]
  simp only [pushJson, RelayService.newQueued, sendRequest, jsonField_of_lookup h₁,
    jsonField_of_lookup h₃, jsonInt_of_lookup h₄, jsonInt_of_lookup h₅]
  exact ⟨_, rfl, ⟨rfl, rfl, rfl, rfl, rfl⟩, rfl, rfl⟩

end Extraction

section Requests

variable {cfg : ServerConfig} {draws : Draws} {o : List (String × Json)} {m : Content}
  {req : IncomingRequest}

/-- The envelope of a send is stored and queued as the body has it. -/
def Forwards (cfg : ServerConfig) (o : List (String × Json)) (i : EnvelopeId) (sess : SessionRecord)
    (c : Call) : Prop :=
  (∀ e, c = .envelopes (.storeEnvelope e) → jsonField o "device_id" = sess.deviceId ∧
    ∃ now, e = RelayService.newEnvelope cfg (sendRequest o sess) i now) ∧
  ∀ u d q, c = .delivery (.enqueue u d q) → jsonField o "device_id" = sess.deviceId ∧
    ∃ now, q = RelayService.newQueued (sendRequest o sess) i now

/-- A call that stores or queues an envelope forwards what was sent, for the session found. -/
def ForwardsOwn (cfg : ServerConfig) (o : List (String × Json)) (i : EnvelopeId) (es : List Ev)
    (ev : Ev) : Prop :=
  (∃ e, ev.call = .envelopes (.storeEnvelope e)) ∨ (∃ u d q, ev.call = .delivery (.enqueue u d q)) →
    ∃ sess, sessionOf es = some sess ∧ Forwards cfg o i sess ev.call

theorem forwards_of_calm {i : EnvelopeId} {sess : SessionRecord} (c : Call) (hc : c.calm) :
    Forwards cfg o i sess c := by
  constructor
  · rintro e rfl
    cases hc
  · rintro u d q rfl
    cases hc

theorem spec_postSend (hm : req.method = .post) (hp : pathOnly req.target = "/v1/messages/send")
    (ho : parseBody cfg req.toHttpRequest = .ok o) (hin : m.In o) {es : List Ev}
    {sess : SessionRecord} (hes : Sought sess es) :
    (handleAuthenticated cfg draws sess req.toHttpRequest).Spec (Call.exec cfg) (fun _ => True)
      (ForwardsOwn cfg o (storedId draws.uuid m.envelopeId)) (Grants fun _ _ => True) es := by
  have hroute : handleAuthenticated cfg draws sess req.toHttpRequest =
      postSend cfg draws sess req.toHttpRequest := by
    unfold handleAuthenticated handlePost
    simp only [hm, hp]
    rfl
  rw [hroute]
  refine spec_withBody fun o' ho' => ?_
  obtain rfl : o = o' := Except.ok.inj (ho.symm.trans ho')
  split
  · exact grants_errRes (by decide)
  rename_i hdevice
  have hdevice : jsonField o "device_id" = sess.deviceId := not_not.mp hdevice
  have hid : storedId draws.uuid m.envelopeId = if (sendRequest o sess).envelopeId = "" then
      draws.uuid else (sendRequest o sess).envelopeId := by
    simp only [sendRequest, jsonField_of_lookup hin.2.1, storedId]
  have honly : (RelayService.sendEnvelope cfg (sendRequest o sess) draws.uuid).Only
      (Forwards cfg o (storedId draws.uuid m.envelopeId) sess) := by
    refine Op.only_sendEnvelope cfg forwards_of_calm hid ?_ ?_ fun _ _ _ _ => ⟨by simp, by simp⟩
    · refine fun now => ⟨fun e h => ?_, by simp⟩
      cases h
      exact ⟨hdevice, now, rfl⟩
    · refine fun now u d => ⟨by simp, fun u' d' q h => ?_⟩
      cases h
      exact ⟨hdevice, now, rfl⟩
  refine Spec.bind (honly.spec (I := fun es => sessionOf es = some sess) ?_ hes.1) ?_
  · exact fun es i c s hc hsess => ⟨fun _ => ⟨sess, hsess, hc⟩, sessionOf_append hsess⟩
  · exact fun es r _ _ _ _ => trivial

theorem spec_send (hm : req.method = .post) (hp : pathOnly req.target = "/v1/messages/send")
    (ho : parseBody cfg req.toHttpRequest = .ok o) (hin : m.In o) :
    (serveRequest cfg draws req).Spec (Call.exec cfg) (fun _ => True)
      (ForwardsOwn cfg o (storedId draws.uuid m.envelopeId)) (fun _ _ => True) [] := by
  refine (spec_serveRequest ?_ ?_ ?_ ?_ fun es sess hes =>
    spec_postSend hm hp ho hin hes).mono fun _ _ _ => trivial
  · rintro es i s (⟨e, h⟩ | ⟨u, d, q, h⟩) <;> cases h
  · rintro es i hash s (⟨e, h⟩ | ⟨u, d, q, h⟩) <;> cases h
  · simp [publicRoute, hm, hp]
  · simp [adminRoute, hm]

/-- The answer lists the rows that the call returned. -/
def Shows (es : List Ev) (v : Json) : Prop :=
  ∀ ev ∈ es, ∀ rows, listed? ev = some rows → entries v = rows.map envelopeJson

theorem listed?_eq_none_of_sought {sess : SessionRecord} {es : List Ev} (h : Sought sess es) :
    ∀ ev ∈ es, listed? ev = none := by
  intro ev hev
  rcases h.2 ev hev with hcall | ⟨hash, hcall⟩
  · simp [listed?, hcall]
  · simp [listed?, hcall]

theorem shows_snoc {es : List Ev} {ev : Ev} {rows : List EnvelopeRecord} {cursor : String}
    {more : Bool} (hes : ∀ ev ∈ es, listed? ev = none) (hev : listed? ev = some rows) :
    Shows (es ++ [ev]) (envelopesJson rows cursor more) := by
  intro ev' hev' rows' hrows
  rcases List.mem_append.mp hev' with hev' | hev'
  · rw [hes ev' hev'] at hrows
    cases hrows
  · obtain rfl := List.mem_singleton.mp hev'
    obtain rfl := Option.some.inj (hev.symm.trans hrows)
    rfl

theorem spec_getPending {sess : SessionRecord} {req : HttpRequest} {es : List Ev}
    (hes : ∀ ev ∈ es, listed? ev = none) :
    (getPending sess req).Spec (Call.exec cfg) (fun _ => True) (fun _ _ => True)
      (Grants Shows) es := by
  unfold getPending
  split
  · refine spec_perform_bind.mpr fun i s _ => ⟨trivial, ?_⟩
    exact grants_jsonRes (shows_snoc hes rfl)
  · exact nofun

theorem spec_getEnvelopes {sess : SessionRecord} {req : HttpRequest} {convId : ConversationId}
    {es : List Ev} (hes : ∀ ev ∈ es, listed? ev = none) :
    (getEnvelopes sess req convId).Spec (Call.exec cfg) (fun _ => True) (fun _ _ => True)
      (Grants Shows) es := by
  refine spec_perform_bind.mpr fun i s _ => ⟨trivial, ?_⟩
  have hes' : ∀ ev ∈ es ++ [⟨i, .conversations (.isUserInConversation convId sess.userId), s⟩],
      listed? ev = none := by
    intro ev hev
    rcases List.mem_append.mp hev with hev | hev
    · exact hes ev hev
    · obtain rfl := List.mem_singleton.mp hev
      rfl
  split
  · exact grants_errRes (by decide)
  split
  · dsimp only
    split
    · split
      · refine spec_perform_bind.mpr fun i s _ => ⟨trivial, ?_⟩
        exact grants_jsonRes (shows_snoc hes' rfl)
      · exact nofun
    · refine spec_perform_bind.mpr fun i s _ => ⟨trivial, ?_⟩
      exact grants_jsonRes (shows_snoc hes' rfl)
  · exact nofun

theorem spec_listing (hreq : listing req.toHttpRequest) :
    (serveRequest cfg draws req).Spec (Call.exec cfg) (fun _ => True) (fun _ _ => True)
      (fun es r => ∀ version v, r = ⟨version, 200, .json v⟩ → Shows es v) [] := by
  have hget : req.method = .get ∧ (getRoute (pathOnly req.target) = some .pending ∨
      ∃ convId, getRoute (pathOnly req.target) = some (.envelopes convId)) := by
    unfold listing at hreq
    split at hreq
    · rename_i hm hroute
      exact ⟨hm, .inl hroute⟩
    · rename_i convId hm hroute
      exact ⟨hm, .inr ⟨convId, hroute⟩⟩
    · cases hreq
  obtain ⟨hm, hroute⟩ := hget
  have hne : ∀ path, getRoute path = none → pathOnly req.target ≠ path := by
    rintro path hnone rfl
    rw [hnone] at hroute
    simp at hroute
  refine spec_serveRequest (fun _ _ _ => trivial) (fun _ _ _ _ => trivial) ?_ ?_ ?_
  · simp [publicRoute, hm, hne "/v1/health" rfl]
  · simp [adminRoute, hm, hne "/v1/admin/stats" rfl]
  · intro es sess hes
    unfold handleAuthenticated handleGet
    rcases hroute with hroute | ⟨convId, hroute⟩
    · simp only [hm, hroute]
      exact spec_getPending (listed?_eq_none_of_sought hes)
    · simp only [hm, hroute]
      exact spec_getEnvelopes (listed?_eq_none_of_sought hes)

end Requests

section Runs

variable {cfg : ServerConfig} {init : Server} {acts : List NetAct} {i : ℕ} {m : Content}
  {sess : SessionRecord} {ev : Ev}

theorem listed?_subset {rows : List EnvelopeRecord} (h : listed? ev = some rows) :
    rows ⊆ ev.pre.db.encryptedEnvelopes := by
  intro e he
  unfold listed? at h
  split at h
  · cases h
    exact (EnvelopeRepository.mem_pendingRows.mp
      (EnvelopeRepository.cursoredPage_subset he)).1
  · cases h
    have hsub := (Table.applyLimit_isPrefix _ _).subset he
    rw [List.mem_insertionSort, List.mem_filter] at hsub
    exact (EnvelopeRepository.mem_conversationRows.mp hsub.1).1
  · cases h
    exact (EnvelopeRepository.mem_conversationRows.mp
      (EnvelopeRepository.cursoredPage_subset he)).1
  · cases h

/-- Since it was stored, and as long as its id is there, the envelope is there unchanged. -/
theorem stored_since (hv : init.db.Valid) (i : ℕ) (e : EnvelopeRecord) :
    Always (fun tr ev => Since (Stores i e) (Gone cfg e.envelopeId) tr →
      e ∈ ev.pre.db.encryptedEnvelopes) (serveHttp cfg init acts).trace := by
  have hvalid : Always (fun _ ev => ev.pre.db.Valid) (serveHttp cfg init acts).trace :=
    always_of_mem (serveHttp_valid hv acts).2
  refine ((httpServer cfg).always_invariant hvalid
    (I := fun tr s => Since (Stores i e) (Gone cfg e.envelopeId) tr → e ∈ s.db.encryptedEnvelopes)
    (by simp) ?_ fun _ _ _ h => h).2
  intro tr s j c hvalid ih hsince
  rcases since_snoc.mp hsince with ⟨-, hcall, hok⟩ | ⟨hsince, hthere⟩
  · obtain rfl : c = .envelopes (.storeEnvelope e) := hcall
    obtain ⟨-, -, -, hdb⟩ :=
      EnvelopeRepository.insertEnvelope_ok (EnvelopeRepository.storeEnvelope_ok hok)
    show e ∈ (EnvelopeRepository.storeEnvelope e s.db).2.encryptedEnvelopes
    rw [hdb]
    exact List.mem_append_right _ (.head _)
  · have he := ih hsince
    simp only [Gone, not_forall, not_not] at hthere
    obtain ⟨r, hr, hid⟩ := hthere
    rcases Call.envelope_of_exec cfg hr with hold | ⟨-, hnew⟩
    · rwa [← hvalid.envelopes_pk.eq_of_mem hold he hid]
    · exact absurd hid.symm (hnew e he)

theorem forwards_of_sent
    (hdraws : ∀ req draws, .spawn (.http req draws) ∈ acts → Drawn draws.uuid)
    (hs : Sent cfg (serveHttp cfg init acts) i m sess)
    (hev : ev ∈ (serveHttp cfg init acts).trace) (htid : ev.tid = i)
    (hcall : (∃ e, ev.call = .envelopes (.storeEnvelope e)) ∨
      ∃ u d q, ev.call = .delivery (.enqueue u d q)) :
    ∃ o uuid, Drawn uuid ∧ m.In o ∧
      Forwards cfg o (storedId uuid m.envelopeId) sess ev.call := by
  obtain ⟨req, draws, o, n, v, ht, hm, hp, ho, hin, hsess⟩ := hs
  have hdrawn := hdraws req draws ((httpServer cfg).op_spawned (List.mem_of_getElem? ht))
  have halways := ((httpServer cfg).spec_run (J := fun _ => True) (fun _ _ => trivial) ht
    (spec_send hm hp ho hin)).1
  have hlocal : ev ∈ localTrace i (serveHttp cfg init acts).trace := by
    simpa [localTrace] using ⟨hev, htid⟩
  obtain ⟨es₁, es₂, hes⟩ := List.append_of_mem hlocal
  obtain ⟨sess', hsess', hforwards⟩ := (hes ▸ halways).at hcall
  have hsess'' : sessionOf (localTrace i (serveHttp cfg init acts).trace) = some sess' := by
    rw [hes]
    exact sessionOf_append hsess'
  obtain rfl : sess = sess' := Option.some.inj (hsess.symm.trans hsess'')
  exact ⟨o, draws.uuid, hdrawn, hin, hforwards⟩

theorem entry_of_listed (hv : init.db.Valid) {req : IncomingRequest} {draws : Draws} {n : ℕ}
    {v r : Json} {tr₁ tr₂ : List Ev} {e : EnvelopeRecord} (hreq : listing req.toHttpRequest)
    (ht : (serveHttp cfg init acts).threads[ev.tid]? =
      some ⟨.http req draws, .ret ⟨n, 200, .json v⟩⟩)
    (htr : (serveHttp cfg init acts).trace = tr₁ ++ ev :: tr₂) (hlists : (listed? ev).isSome)
    (hsince : Since (Stores i e) (Gone cfg e.envelopeId) tr₁) (hr : r ∈ entries v)
    (hid : HasId e.envelopeId r) : r = envelopeJson e := by
  have hmem : ev ∈ (serveHttp cfg init acts).trace := by simp [htr]
  obtain ⟨rows, hrows⟩ := Option.isSome_iff_exists.mp hlists
  have hshows := ((httpServer cfg).spec_run (J := fun _ => True) (fun _ _ => trivial) ht
    (spec_listing hreq)).2 n v rfl
  have hlocal : ev ∈ localTrace ev.tid (serveHttp cfg init acts).trace := by
    simpa [localTrace] using hmem
  rw [hshows ev hlocal rows hrows] at hr
  obtain ⟨e', he', rfl⟩ := List.mem_map.mp hr
  have hstored : e ∈ ev.pre.db.encryptedEnvelopes := (htr ▸ stored_since hv i e).at hsince
  have hid' : e'.envelopeId = e.envelopeId := by
    obtain ⟨fields, hfields, hlookup⟩ := hid
    cases hfields
    exact Json.str.inj (Option.some.inj hlookup)
  have hvalid := (serveHttp_valid hv acts).2 ev hmem
  rw [hvalid.envelopes_pk.eq_of_mem (listed?_subset hrows he') hstored hid']

end Runs

section Shown

variable {cfg : ServerConfig} {init : Server} {acts : List NetAct} {i : ℕ} {m : Content}
  {sess : SessionRecord}

theorem carries_iff_of_lists (hv : init.db.Valid)
    (hdraws : ∀ req draws, .spawn (.http req draws) ∈ acts → Drawn draws.uuid)
    (hs : Sent cfg (serveHttp cfg init acts) i m sess) {r : Json}
    (hr : Lists cfg (serveHttp cfg init acts) i r) : Carries r m sess ↔ m.Exact := by
  obtain ⟨hreq, ht, htr, hlists, hsince, hr, hid⟩ := hr
  rw [entry_of_listed hv hreq ht htr hlists hsince hr hid]
  obtain ⟨l₁, a, l₂, rfl, ⟨htid, hcall, -⟩, -⟩ := hsince
  obtain ⟨o, uuid, hdrawn, hin, hstored, -⟩ :=
    forwards_of_sent hdraws hs (by simp [htr]) htid (.inl ⟨_, hcall⟩)
  obtain ⟨hdevice, now, rfl⟩ := hstored _ hcall
  obtain ⟨fields, hfields, hin', huser, hdev⟩ := envelopeJson_in hin hdevice
  rw [hfields]
  exact carries_iff hdrawn hin' huser hdev

theorem carries_iff_of_pushes
    (hdraws : ∀ req draws, .spawn (.http req draws) ∈ acts → Drawn draws.uuid)
    (hs : Sent cfg (serveHttp cfg init acts) i m sess) {q : QueuedEnvelope}
    (hq : Pushes (serveHttp cfg init acts) i q) : Carries (pushJson q) m sess ↔ m.Exact := by
  obtain ⟨ev, hev, htid, u, d, hcall⟩ := hq
  obtain ⟨o, uuid, hdrawn, hin, -, hqueued⟩ :=
    forwards_of_sent hdraws hs hev htid (.inr ⟨_, _, _, hcall⟩)
  obtain ⟨hdevice, now, rfl⟩ := hqueued _ _ _ hcall
  obtain ⟨fields, hfields, hin', huser, hdev⟩ := pushJson_in hin hdevice
  rw [hfields]
  exact carries_iff hdrawn hin' huser hdev

/-- A push is received as it is serialized, whatever the memory has, exactly if the socket takes all
of it at once. -/
theorem receives_iff {run : NetRun} (hjson : JsonExact cfg run i) {q : QueuedEnvelope}
    (hq : Pushes run i q) {P : Json → Prop} (taken : ℕ) :
    (∀ memory, ∃ r, Receives cfg q taken memory r ∧ P r) ↔
      P (pushJson q) ∧ WebSocketSession.TakenWhole (pushText cfg q) taken := by
  constructor
  · intro h
    have hwhole : WebSocketSession.TakenWhole (pushText cfg q) taken := by
      by_contra hpart
      obtain ⟨r, hreceives, -⟩ := h fun _ => '\x00'
      exact hjson.nul _ r hreceives (WebSocketSession.nul_mem_asyncWrite hpart)
    obtain ⟨r, hreceives, hP⟩ := h fun _ => '\x00'
    rw [Receives, WebSocketSession.asyncWrite_of_takenWhole hwhole, hjson.pushes q hq] at hreceives
    rw [Except.ok.inj hreceives]
    exact ⟨hP, hwhole⟩
  · rintro ⟨hP, hwhole⟩ memory
    refine ⟨pushJson q, ?_, hP⟩
    rw [Receives, WebSocketSession.asyncWrite_of_takenWhole hwhole, hjson.pushes q hq]

end Shown

section Example

def session : SessionRecord := ⟨"s", "a", "d", "t", "r", 900, 2592000, 0, none⟩

def alone : Server where
  db :=
    { users := [{ (default : UserRecord) with userId := "a", username := "a" }]
      devices := [{ (default : DeviceRecord) with deviceId := "d", userId := "a" },
        { (default : DeviceRecord) with deviceId := "e", userId := "a" }]
      sessions := [session]
      conversations := [⟨"c", .group, "a", 0, "", 0⟩]
      conversationMembers := [⟨"c", "a", .owner, 0, none⟩] }

def note (ciphertext : String) : Content := ⟨ciphertext, "m", "c", 1, 2⟩

def row (ciphertext : String) : EnvelopeRecord :=
  { envelopeId := "m", conversationId := "c", senderUserId := "a", senderDeviceId := "d"
    ciphertext, serverTimestamp := 0, envelopeType := 1, retentionUntil := some 7776000
    orderingEpoch := some 2 }

def queued : QueuedEnvelope := ⟨"m", "c", "a", "d", "xy", 0, 1, some 2⟩

def sendBody (literal : String) : String :=
  "\x7b\"device_id\":\"d\",\"ciphertext\":" ++ literal ++ ",\"envelope_id\":\"m\"," ++
    "\"conversation_id\":\"c\",\"envelope_type\":1,\"ordering_epoch\":2\x7d"

def queuedText : String :=
  "\x7b\"type\":\"envelope\",\"envelope_id\":\"m\",\"conversation_id\":\"c\"," ++
    "\"sender_user_id\":\"a\",\"sender_device_id\":\"d\",\"ciphertext\":\"xy\"," ++
    "\"server_timestamp\":0,\"envelope_type\":1,\"ordering_epoch\":2\x7d"

/-- Services that know the body with the ciphertext, and the text of the push. -/
def sending (literal ciphertext : String) : ServerConfig :=
  { ServerConfig.withBodies
      [(sendBody literal, .obj [("device_id", .str "d"), ("ciphertext", .str ciphertext),
        ("envelope_id", .str "m"), ("conversation_id", .str "c"), ("envelope_type", .int 1),
        ("ordering_epoch", .int 2)]),
      (queuedText, pushJson queued)] with
    serializeJson := fun _ => queuedText }

def sendThenList (literal : String) : List NetAct :=
  .spawn (.http { method := .post, target := "/v1/messages/send", body := sendBody literal
                  version := 11, authorization := some "Bearer t" } { uuid := "u" }) ::
    List.replicate 11 (.run 0) ++
  .spawn (.http { method := .get, target := "/v1/conversations/c/envelopes", body := ""
                  version := 11, authorization := some "Bearer t" } { uuid := "u" }) ::
    List.replicate 4 (.run 1)

instance (i : ℕ) (e : EnvelopeRecord) (ev : Ev) : Decidable (Stores i e ev) :=
  inferInstanceAs (Decidable (_ ∧ _ ∧ _))

instance (cfg : ServerConfig) (i : EnvelopeId) (ev : Ev) : Decidable (Gone cfg i ev) :=
  inferInstanceAs (Decidable (∀ e ∈ _, _))

theorem lists_at {cfg : ServerConfig} {run : NetRun} {i n k : ℕ} {ev : Ev}
    {req : IncomingRequest} {draws : Draws} {v r : Json} {e : EnvelopeRecord}
    (hev : run.trace[k]? = some ev) (hreq : listing req.toHttpRequest)
    (ht : run.threads[ev.tid]? = some ⟨.http req draws, .ret ⟨n, 200, .json v⟩⟩)
    (hlists : (listed? ev).isSome)
    (hsince : Since (Stores i e) (Gone cfg e.envelopeId) (run.trace.take k)) (hr : r ∈ entries v)
    (hid : HasId e.envelopeId r) : Lists cfg run i r := by
  obtain ⟨hk, rfl⟩ := List.getElem?_eq_some_iff.mp hev
  have htr : run.trace = run.trace.take k ++ run.trace[k] :: run.trace.drop (k + 1) := by simp
  exact ⟨hreq, ht, htr, hlists, hsince, hr, hid⟩

def queuesOnly (ev : Ev) : Bool :=
  match ev.call with
  | .delivery (.enqueue _ _ q) => q = queued
  | _ => true

set_option maxRecDepth 4000 in
theorem sendThenList_jsonExact :
    JsonExact (sending "\"xy\"" "xy")
      (serveHttp (sending "\"xy\"" "xy") alone (sendThenList "\"xy\"")) 0 where
  nul text v h := by
    have hkeys : text = sendBody "\"xy\"" ∨ text = queuedText := by
      by_contra hother
      obtain ⟨hbody, hqueued⟩ := not_or.mp hother
      simp [sending, ServerConfig.withBodies, List.lookup_cons, 
        beq_false_of_ne hbody, beq_false_of_ne hqueued] at h
    rcases hkeys with rfl | rfl
    · decide
    · decide
  pushes q h := by
    obtain ⟨ev, hev, -, u, d, hcall⟩ := h
    have honly : (serveHttp (sending "\"xy\"" "xy") alone
        (sendThenList "\"xy\"")).trace.all queuesOnly := by decide
    have hq := List.all_eq_true.mp honly ev hev
    simp only [queuesOnly, hcall, decide_eq_true_eq] at hq
    rw [hq]
    rfl

end Example

end VoxServer.Fidelity
