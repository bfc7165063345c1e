import VoxServer.Interleaving.Sequential
import VoxServer.Net.Routes

/-! # The table of protected routes

Without a session a request is looked up in a table of routes, and answered with 401 or 404.
With one it goes through the tests of the handlers, which were written apart from the table.
A handler that has taken a request always answers it, so the two agree exactly on the paths
that are not gaps of the table.
-/

namespace VoxServer.Http

open Interleaving Prog

section Handlers

variable (cfg : ServerConfig) (draws : Draws) (sess : SessionRecord) (req : HttpRequest)

/-- The program ends with an answer, be it an exception that the session answers. -/
def Answered (p : ServerProg Handled) : Prop := p.Returns (· ≠ .unhandled)

@[simp] theorem jsonRes_ne (version status : ℕ) (v : Json) :
    jsonRes version status v ≠ .unhandled := by
  simp [jsonRes]

@[simp] theorem errRes_ne (version status : ℕ) (e : Error) :
    errRes version status e ≠ .unhandled :=
  jsonRes_ne version status _

@[simp] theorem serviceError_ne (version : ℕ) (e : Error) :
    serviceError version e ≠ .unhandled :=
  errRes_ne version _ e

@[simp] theorem respond_ne {α : Type} (body : α → Json) (r : Result α) :
    respond req body r ≠ .unhandled := by
  cases r <;> simp [respond]

theorem parseBody_ne {r : Handled} (h : parseBody cfg req = .error r) : r ≠ .unhandled := by
  unfold parseBody at h
  split at h
  · cases h
    exact serviceError_ne _ _
  · cases h
  · cases h
    exact errRes_ne _ _ _

theorem answered_withBody {f : List (String × Json) → ServerProg Handled}
    (hf : ∀ o, Answered (f o)) : Answered (withBody cfg req f) := by
  unfold withBody
  cases h : parseBody cfg req with
  | ok o => exact hf o
  | error r => exact parseBody_ne cfg req h

theorem answered_withDevice {f : List (String × Json) → ServerProg Handled}
    (hf : ∀ o, Answered (f o)) : Answered (withDevice cfg sess req f) := by
  refine answered_withBody cfg req fun o => ?_
  split
  · exact errRes_ne _ _ _
  · exact hf o

theorem answered_announce {α : Type} (convId : α → ConversationId) (body : α → Json)
    (r : Result α) : Answered (announce cfg req convId body r) := by
  cases r with
  | error e => exact serviceError_ne _ e
  | ok a => exact Returns.bind fun _ => jsonRes_ne _ _ _

theorem answered_handlePost
    (h : (postRoute sess.userId (pathOnly req.target)).isSome) :
    Answered (handlePost cfg draws sess req) := by
  obtain ⟨route, hroute⟩ := Option.isSome_iff_exists.mp h
  unfold handlePost
  rw [hroute]
  cases route with
  | logout => exact Returns.bind fun _ => respond_ne req _ _
  | changePassword =>
    exact answered_withBody cfg req fun o => Returns.bind fun _ => respond_ne req _ _
  | send => exact answered_withDevice cfg sess req fun o => Returns.bind fun _ => respond_ne req _ _
  | ack => exact answered_withDevice cfg sess req fun o => Returns.bind fun _ => respond_ne req _ _
  | conversations =>
    refine answered_withBody cfg req fun o => ?_
    dsimp only
    split
    · exact Returns.bind fun r => answered_announce cfg req _ _ r
    · split
      · exact Returns.bind fun r => answered_announce cfg req _ _ r
      · split
        · exact Returns.bind fun r => answered_announce cfg req _ _ r
        · exact errRes_ne _ _ _
  | members conv =>
    exact answered_withBody cfg req fun o => Returns.bind fun r => answered_announce cfg req _ _ r
  | subscribe conv => exact Returns.bind fun r => answered_announce cfg req _ _ r
  | unsubscribe conv => exact Returns.bind fun r => answered_announce cfg req _ _ r
  | prekeys u d =>
    simp only [postPrekeys]
    split
    · exact errRes_ne _ _ _
    · exact answered_withBody cfg req fun o => Returns.bind fun _ => respond_ne req _ _
  | uploadInit => exact answered_withBody cfg req fun o => Returns.bind fun _ => respond_ne req _ _
  | finalize a =>
    simp only [postFinalize]
    cases hp : parseBody cfg req with
    | error r => exact parseBody_ne cfg req hp
    | ok o =>
      refine Returns.bind fun r => ?_
      cases r with
      | error e => exact serviceError_ne _ e
      | ok _ => exact jsonRes_ne _ _ _

theorem answered_putSignedPrekey (u : UserId) (d : DeviceId) :
    Answered (putSignedPrekey cfg sess req u d) := by
  unfold putSignedPrekey
  split
  · exact errRes_ne _ _ _
  · refine answered_withBody cfg req fun o => ?_
    refine returns_perform_bind.mpr fun now => returns_perform_bind.mpr fun r => ?_
    cases r with
    | error e => exact serviceError_ne _ e
    | ok _ => exact Returns.bind fun _ => jsonRes_ne _ _ _

theorem answered_putKeyBundle : Answered (putKeyBundle cfg sess req) := by
  refine answered_withBody cfg req fun o => returns_perform_bind.mpr fun u => ?_
  cases u with
  | none => exact errRes_ne _ _ _
  | some u =>
    refine returns_perform_bind.mpr fun r => ?_
    cases r with
    | error e => exact serviceError_ne _ e
    | ok _ => exact Returns.bind fun _ => jsonRes_ne _ _ _

theorem answered_recordWritten (coll r : String) (fields : List (String × Json))
    (res : Result SyncPutResult) : Answered (recordWritten cfg sess req coll r fields res) := by
  cases res with
  | error e => exact serviceError_ne _ e
  | ok _ => exact Returns.bind fun _ => jsonRes_ne _ _ _

theorem answered_putChunk (a : AttachmentId) : Answered (putChunk req a) := by
  unfold putChunk
  split
  · refine Returns.bind fun r => ?_
    cases r with
    | error e => exact serviceError_ne _ e
    | ok _ => exact jsonRes_ne _ _ _
  · exact nofun

theorem answered_handlePut (h : (putRoute sess.userId (pathOnly req.target)).isSome) :
    Answered (handlePut cfg sess req) := by
  obtain ⟨route, hroute⟩ := Option.isSome_iff_exists.mp h
  unfold handlePut
  rw [hroute]
  cases route with
  | keyBundle => exact answered_putKeyBundle cfg sess req
  | syncRecord coll r =>
    refine answered_withDevice cfg sess req fun o => returns_perform_bind.mpr fun now => ?_
    exact returns_perform_bind.mpr fun res => answered_recordWritten cfg sess req _ _ _ res
  | signedPrekey u d => exact answered_putSignedPrekey cfg sess req u d
  | chunk a => exact answered_putChunk req a

theorem answered_handleDelete (h : (deleteRoute (pathOnly req.target)).isSome) :
    Answered (handleDelete cfg sess req) := by
  obtain ⟨route, hroute⟩ := Option.isSome_iff_exists.mp h
  unfold handleDelete
  rw [hroute]
  cases route with
  | device target => exact Returns.bind fun _ => respond_ne req _ _
  | syncRecord coll r =>
    refine answered_withDevice cfg sess req fun o => returns_perform_bind.mpr fun now => ?_
    exact returns_perform_bind.mpr fun res => answered_recordWritten cfg sess req _ _ _ res
  | member conv u => exact Returns.bind fun r => answered_announce cfg req _ _ r

theorem publicUser_ne (u : Option UserRecord) : publicUser req u ≠ .unhandled := by
  unfold publicUser
  split
  · split
    · exact errRes_ne _ _ _
    · exact jsonRes_ne _ _ _
  · exact errRes_ne _ _ _

theorem answered_getPrekeyBundle (u : UserId) (d : DeviceId) :
    Answered (getPrekeyBundle req u d) := by
  refine returns_perform_bind.mpr fun r => ?_
  cases r with
  | error e => exact serviceError_ne _ e
  | ok _ => exact jsonRes_ne _ _ _

theorem answered_getChanges : Answered (getChanges sess req) := by
  unfold getChanges
  dsimp only
  split
  · exact errRes_ne _ _ _
  · split
    · exact returns_perform_bind.mpr fun _ => jsonRes_ne _ _ _
    · exact nofun

theorem answered_getEnvelopes (conv : ConversationId) : Answered (getEnvelopes sess req conv) := by
  refine returns_perform_bind.mpr fun b => ?_
  split
  · exact errRes_ne _ _ _
  · dsimp only
    split
    · split
      · split
        · exact returns_perform_bind.mpr fun _ => jsonRes_ne _ _ _
        · exact nofun
      · exact returns_perform_bind.mpr fun _ => jsonRes_ne _ _ _
    · exact nofun

theorem answered_getPrekeyBundles (u : UserId) : Answered (getPrekeyBundles req u) := by
  refine returns_perform_bind.mpr fun r => ?_
  split
  · exact errRes_ne _ _ _
  · split
    · exact errRes_ne _ _ _
    · exact returns_perform_bind.mpr fun _ => Returns.bind fun _ => jsonRes_ne _ _ _

theorem answered_getDevicesOf (u : UserId) : Answered (getDevicesOf req u) := by
  refine returns_perform_bind.mpr fun r => ?_
  split
  · exact errRes_ne _ _ _
  · split
    · exact errRes_ne _ _ _
    · exact returns_perform_bind.mpr fun _ => Returns.bind fun _ => jsonRes_ne _ _ _

theorem answered_getConversation (conv : ConversationId) :
    Answered (getConversation cfg sess req conv) := by
  refine returns_perform_bind.mpr fun r => ?_
  split
  · exact errRes_ne _ _ _
  · refine returns_perform_bind.mpr fun b => ?_
    split
    · exact errRes_ne _ _ _
    · refine returns_perform_bind.mpr fun _ => Returns.bind fun _ => ?_
      exact returns_perform_bind.mpr fun _ => jsonRes_ne _ _ _

theorem answered_getMembers (conv : ConversationId) : Answered (getMembers sess req conv) := by
  refine returns_perform_bind.mpr fun b => ?_
  split
  · exact errRes_ne _ _ _
  · refine returns_perform_bind.mpr fun r => ?_
    split
    · exact errRes_ne _ _ _
    · split
      · exact Returns.bind fun _ => jsonRes_ne _ _ _
      · exact Returns.bind fun _ => jsonRes_ne _ _ _

theorem answered_getAttachment (a : AttachmentId) : Answered (getAttachment sess req a) := by
  refine Returns.bind fun r => ?_
  cases r with
  | error e => exact serviceError_ne _ e
  | ok path =>
    refine returns_perform_bind.mpr fun bytes => ?_
    cases bytes with
    | none => exact serviceError_ne _ _
    | some bytes => exact nofun

theorem answered_handleGet (h : (getRoute (pathOnly req.target)).isSome) :
    Answered (handleGet cfg sess req) := by
  obtain ⟨route, hroute⟩ := Option.isSome_iff_exists.mp h
  unfold handleGet
  rw [hroute]
  cases route with
  | me =>
    refine returns_perform_bind.mpr fun u => ?_
    split
    · exact errRes_ne _ _ _
    · exact jsonRes_ne _ _ _
  | myDevices => exact returns_perform_bind.mpr fun _ => jsonRes_ne _ _ _
  | keyBundle =>
    refine returns_perform_bind.mpr fun b => ?_
    split
    · exact errRes_ne _ _ _
    · exact jsonRes_ne _ _ _
  | changes => exact answered_getChanges sess req
  | users =>
    simp only [getUsers]
    split
    · exact errRes_ne _ _ _
    · exact returns_perform_bind.mpr fun _ => jsonRes_ne _ _ _
  | userByUsername name => exact returns_perform_bind.mpr fun u => publicUser_ne req u
  | search =>
    simp only [getSearch]
    split
    · refine returns_perform_bind.mpr fun _ => ?_
      split
      · exact jsonRes_ne _ _ _
      · exact nofun
    · exact nofun
  | prekeyBundles u => exact answered_getPrekeyBundles req u
  | devicesOf u => exact answered_getDevicesOf req u
  | user u => exact returns_perform_bind.mpr fun u => publicUser_ne req u
  | conversation conv => exact answered_getConversation cfg sess req conv
  | members conv => exact answered_getMembers sess req conv
  | pending =>
    simp only [getPending]
    split
    · exact returns_perform_bind.mpr fun _ => jsonRes_ne _ _ _
    · exact nofun
  | envelopes conv => exact answered_getEnvelopes sess req conv
  | conversations =>
    refine returns_perform_bind.mpr fun _ => returns_perform_bind.mpr fun _ => ?_
    exact Returns.bind fun _ => jsonRes_ne _ _ _
  | prekeyBundle u d => exact answered_getPrekeyBundle req u d
  | prekeyBundleOfDevice d =>
    refine returns_perform_bind.mpr fun ds => ?_
    split
    · exact errRes_ne _ _ _
    · exact answered_getPrekeyBundle req _ d
    · exact errRes_ne _ _ _
  | attachment a => exact answered_getAttachment sess req a

end Handlers

section Table

variable {m : Verb} {target : String}

/-- `HandleAuthenticated` has a route for the verb and the path: whatever the session, the state and
the body are, it does not return nothing. -/
def Handles (m : Verb) (target : String) : Prop :=
  ∀ (cfg : ServerConfig) (draws : Draws) (sess : SessionRecord) (req : HttpRequest) (s : Server),
    req.method = m → req.target = target →
      ((handleAuthenticated cfg draws sess req).run (Call.exec cfg) s).1 ≠ .unhandled

def statusWithoutSession (cfg : ServerConfig) (draws : Draws) (req : IncomingRequest)
    (s : Server) : ℕ :=
  (((dispatchHttp cfg draws req none).run (Call.exec cfg) s).1.toResponse req.version).status

/-- The request gets as far as to the table: it is not too large, and neither public nor one of the
admin. -/
structure Protected (cfg : ServerConfig) (req : IncomingRequest) : Prop where
  size : req.body.length ≤ cfg.maxHttpBodyBytes
  notPublic : publicRoute req.method (pathOnly req.target) = none
  notAdmin : adminRoute cfg req (pathOnly req.target) = none

/-- The table has the route if and only if the handlers have it, and without a session the answer is
401 for the routes that exist and 404 for the others. -/
structure TableExact (m : Verb) (target : String) : Prop where
  known : isKnownProtectedRoute m (pathOnly target) ↔ Handles m target
  unauthorized : ∀ cfg draws req s, req.method = m → req.target = target → Protected cfg req →
    (statusWithoutSession cfg draws req s = 401 ↔ Handles m target)
  notFound : ∀ cfg draws req s, req.method = m → req.target = target → Protected cfg req →
    (statusWithoutSession cfg draws req s = 404 ↔ ¬ Handles m target)

theorem handled_iff_routed (cfg : ServerConfig) (draws : Draws) (sess : SessionRecord)
    (req : HttpRequest) (s : Server) :
    ((handleAuthenticated cfg draws sess req).run (Call.exec cfg) s).1 ≠ .unhandled ↔
      routed req.method sess.userId (pathOnly req.target) := by
  unfold handleAuthenticated routed
  cases req.method with
  | post =>
    cases h : postRoute sess.userId (pathOnly req.target) with
    | none => simp [handlePost, h]
    | some r => simpa using (answered_handlePost cfg draws sess req (by simp [h])).run _ s
  | get =>
    cases h : getRoute (pathOnly req.target) with
    | none => simp [handleGet, h]
    | some r => simpa using (answered_handleGet cfg sess req (by simp [h])).run _ s
  | put =>
    cases h : putRoute sess.userId (pathOnly req.target) with
    | none => simp [handlePut, h]
    | some r => simpa using (answered_handlePut cfg sess req (by simp [h])).run _ s
  | delete =>
    cases h : deleteRoute (pathOnly req.target) with
    | none => simp [handleDelete, h]
    | some r => simpa using (answered_handleDelete cfg sess req (by simp [h])).run _ s
  | other => simp

theorem routed_congr (self self' : UserId) (path : String) :
    routed m self path = routed m self' path := by
  cases m with
  | post => simp only [routed, isSome_postRoute, isSome_deviceScope]
  | put => simp only [routed, isSome_putRoute, isSome_deviceScope]
  | get => rfl
  | delete => rfl
  | other => rfl

theorem handles_iff_routed (self : UserId) (m : Verb) (target : String) :
    Handles m target ↔ routed m self (pathOnly target) := by
  constructor
  · intro h
    have hroute := h default {} default { method := m, target } {} rfl rfl
    rw [handled_iff_routed] at hroute
    rwa [routed_congr self (default : SessionRecord).userId]
  · rintro h cfg draws sess req s rfl rfl
    rw [handled_iff_routed, routed_congr sess.userId self]
    exact h

theorem statusWithoutSession_eq {cfg : ServerConfig} {req : IncomingRequest}
    (h : Protected cfg req) (draws : Draws) (s : Server) :
    statusWithoutSession cfg draws req s =
      if isKnownProtectedRoute req.method (pathOnly req.target) then 401 else 404 := by
  unfold statusWithoutSession dispatchHttp
  have hsize : ¬ req.body.length > cfg.maxHttpBodyBytes := Nat.not_lt.mpr h.size
  simp only [if_neg hsize, h.notPublic, h.notAdmin]
  split <;> rfl

/-- The table is exact for a verb and a path that is none of the gaps. -/
theorem tableExact_iff (m : Verb) (target : String) :
    TableExact m target ↔ ¬ gap m (pathOnly target) := by
  have hknown := known_eq "" m (pathOnly target)
  have hroute := handles_iff_routed "" m target
  constructor
  · intro h hgap
    have hr := h.known
    rw [hroute, hknown, hgap, routed_of_gap "" hgap] at hr
    simp at hr
  · intro h
    have heq : isKnownProtectedRoute m (pathOnly target) ↔ Handles m target := by
      rw [hroute, hknown, Bool.eq_false_of_not_eq_true h, Bool.or_false]
    refine ⟨heq, ?_, ?_⟩
    · rintro cfg draws req s rfl rfl hp
      rw [statusWithoutSession_eq hp, ← heq]
      split <;> rename_i hk <;> simp [hk]
    · rintro cfg draws req s rfl rfl hp
      rw [statusWithoutSession_eq hp, ← heq]
      split <;> rename_i hk <;> simp [hk]

/-- Routes of the table for which the handlers return nothing. -/
theorem table_gaps :
    ¬ TableExact .post "/v1/devices/d/signed-prekey" ∧
    ¬ TableExact .get "/v1/users/u/devices/d/prekey-bundle" ∧
    ¬ TableExact .get "/v1/conversations/devices" ∧
    ¬ TableExact .put "/v1/sync/records/notes" ∧
    ¬ TableExact .delete "/v1/me/devices/" := by
  have hgap : ∀ m target, isKnownProtectedRoute m (pathOnly target) = true →
      ((handleAuthenticated default {} default { method := m, target }).run (Call.exec default)
        {}).1 = .unhandled → ¬ TableExact m target := by
    intro m target hknown hnone h
    exact h.known.mp hknown default {} default { method := m, target } {} rfl rfl hnone
  exact ⟨hgap _ _ (by decide) rfl, hgap _ _ (by decide) rfl, hgap _ _ (by decide) rfl,
    hgap _ _ (by decide) rfl, hgap _ _ (by decide) rfl⟩

end Table

end VoxServer.Http
