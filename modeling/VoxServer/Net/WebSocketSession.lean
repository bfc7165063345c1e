import VoxServer.Machine.Run
import VoxServer.Server.System

/-! # WebSocket connections

A connection that authenticates registers itself under the key of its device, in
place of an earlier one, and a connection that shuts down removes the key. Both
go by the key alone, so two connections of one device get in each other's way.
-/

namespace VoxServer

open Interleaving

/-- A connection. The code keeps no flags for being authenticated and shut down. -/
structure WebSocketSession where
  userId : UserId := ""
  deviceId : DeviceId := ""
  outbound : List PushMessage := []
  writeInProgress : Bool := false
  /-- The messages whose handlers `PostSend` has posted. -/
  posted : List PushMessage := []
  authPending : Bool := true
  authenticated : Bool := false
  closed : Bool := false
  deriving DecidableEq, Repr

namespace WebSocketSession

variable (c : WebSocketSession)

def key : String := deviceScopeKey c.userId c.deviceId

/-- Authenticated and not shut down. -/
def live : Bool := c.authenticated && !c.closed

/-- The outbound queue is full, and the next message closes the connection. -/
def overflows (cfg : ServerConfig) : Bool :=
  cfg.maxWsOutboundQueue > 0 && c.outbound.length ≥ cfg.maxWsOutboundQueue

/-- `PumpOutbound` starts to write the first message, unless a write is in progress. -/
def pumpOutbound : WebSocketSession :=
  if c.writeInProgress then c else
  match c.outbound with
  | [] => c
  | _ :: rest => { c with writeInProgress := true, outbound := rest }

/-- A frame of a message has at most this many bytes. -/
def writeBufferBytes : ℕ := 4096

/-- What `async_write` sends of the message that `PumpOutbound` gives it a buffer over. The socket
takes some bytes of the first frame at once. `PumpOutbound` then returns and destroys its string, so
the other bytes are read from freed memory, which can have anything. -/
def asyncWrite (chunk : String) (taken : ℕ) (memory : ℕ → Char) : String :=
  String.ofList (chunk.toList.mapIdx fun k b =>
    if k < min taken writeBufferBytes then b else memory k)

/-- The message is in the first frame, and the socket takes all of it at once. -/
def TakenWhole (chunk : String) (taken : ℕ) : Prop :=
  chunk.toList.length ≤ min taken writeBufferBytes

instance (chunk : String) (taken : ℕ) : Decidable (TakenWhole chunk taken) :=
  inferInstanceAs (Decidable (_ ≤ _))

theorem asyncWrite_of_takenWhole {chunk : String} {taken : ℕ} {memory : ℕ → Char}
    (h : TakenWhole chunk taken) : asyncWrite chunk taken memory = chunk := by
  have hkeep : (chunk.toList.mapIdx fun k b =>
      if k < min taken writeBufferBytes then b else memory k) = chunk.toList := by
    refine List.ext_getElem (by simp) fun k hk hk' => ?_
    rw [List.getElem_mapIdx, if_pos (hk'.trans_le h)]
  rw [asyncWrite, hkeep, String.ofList_toList]

theorem nul_mem_asyncWrite {chunk : String} {taken : ℕ} (h : ¬ TakenWhole chunk taken) :
    '\x00' ∈ (asyncWrite chunk taken fun _ => '\x00').toList := by
  rw [asyncWrite, String.toList_ofList, List.mem_mapIdx]
  exact ⟨min taken writeBufferBytes, not_le.mp h, if_neg (lt_irrefl _)⟩

/-- What decides whether the connection is live, and for which device. -/
def status : UserId × DeviceId × Bool × Bool :=
  (c.userId, c.deviceId, c.authenticated, c.closed)

theorem pumpOutbound_status :
    c.pumpOutbound.status = c.status ∧ c.pumpOutbound.authPending = c.authPending := by
  unfold pumpOutbound
  split
  · exact ⟨rfl, rfl⟩
  · split
    · exact ⟨rfl, rfl⟩
    · exact ⟨rfl, rfl⟩

variable {c} {c' : WebSocketSession}

theorem live_eq_of_status (h : c'.status = c.status) : c'.live = c.live := by
  simp only [status, Prod.mk.injEq] at h
  simp only [live, h]

theorem key_eq_of_status (h : c'.status = c.status) : c'.key = c.key := by
  simp only [status, Prod.mk.injEq] at h
  simp only [key, h]

end WebSocketSession

/-- The connections of a server, and the order in which they authenticated. A connection that was
never opened is like one that has just been opened. -/
structure Connections where
  server : Server := {}
  sessions : ℕ → WebSocketSession := fun _ => {}
  authOrder : List ℕ := []

namespace Connections

variable (cfg : ServerConfig)

/-- What can happen: the handlers of the connections, each in one step, a push, and anything else in
the server. -/
inductive Action
  | finishAuth (i : ℕ) (accessToken : String)
  | notify (key : String) (message : PushMessage)
  | runPosted (i k : ℕ)
  | written (i : ℕ) (ok : Bool)
  | readFailed (i : ℕ)
  | other (db : Database) (clock : Timestamp)
  deriving DecidableEq, Repr

def setSession (i : ℕ) (c : WebSocketSession) (s : Connections) : Connections :=
  { s with sessions := Function.update s.sessions i c }

/-- `FinishAuth`, which each connection calls once, while it is open. -/
def finishAuth (i : ℕ) (accessToken : String) (s : Connections) : Option Connections :=
  let c := s.sessions i
  if !c.authPending || c.closed then none else
  match ((TokenManager.validateAccessToken cfg accessToken s.server.clock).run (Call.exec cfg)
    s.server).1 with
  | .error _ => some (s.setSession i { c with authPending := false })
  | .ok session =>
    let c := { c with
      userId := session.userId, deviceId := session.deviceId
      authPending := false, authenticated := true }
    some { s.setSession i c with
      server := WsPushRegistry.register c.key i s.server
      authOrder := s.authOrder ++ [i] }

/-- `Notify`, with the `PostSend` of the connection that is registered. -/
def notify (key : String) (message : PushMessage) (s : Connections) : Connections :=
  match s.server.senders key with
  | none => s
  | some i => { s.setSession i
      { s.sessions i with posted := (s.sessions i).posted ++ [message] } with
        server := WsPushRegistry.notify key message s.server }

def shutdown (i : ℕ) (s : Connections) : Connections :=
  let c := s.sessions i
  if c.deviceId ≠ "" then
    { s.setSession i { c with userId := "", deviceId := "", closed := true } with
      server := WsPushRegistry.unregister c.key s.server }
  else s.setSession i { c with closed := true }

/-- A handler that `PostSend` posted. On several threads it can overtake those before it. -/
def runPosted (i k : ℕ) (s : Connections) : Option Connections :=
  let c := s.sessions i
  let posted := c.posted.eraseIdx k
  match c.posted[k]? with
  | none => none
  | some message =>
    if c.overflows cfg then some ((s.setSession i { c with posted }).shutdown i)
    else some (s.setSession i
      { c with posted, outbound := c.outbound ++ [message] }.pumpOutbound)

/-- The handler of `async_write`. -/
def written (i : ℕ) (ok : Bool) (s : Connections) : Option Connections :=
  let c := s.sessions i
  if !c.writeInProgress then none
  else if ok then some (s.setSession i { c with writeInProgress := false }.pumpOutbound)
  else some ((s.setSession i { c with writeInProgress := false }).shutdown i)

/-- The handler of `async_read` when the peer is gone. -/
def readFailed (i : ℕ) (s : Connections) : Option Connections :=
  if (s.sessions i).authenticated then some (s.shutdown i) else none

def step (s : Connections) : Action → Option Connections
  | .finishAuth i token => s.finishAuth cfg i token
  | .notify key message => some (s.notify key message)
  | .runPosted i k => s.runPosted cfg i k
  | .written i ok => s.written i ok
  | .readFailed i => s.readFailed i
  | .other db clock => some { s with server := { s.server with db, clock } }

abbrev run (server : Server) (acts : List Action) : Option Connections :=
  Machine.run (step cfg) { server } acts

/-- Whether the connection is live and belongs to the device of the key. -/
def liveAt (s : Connections) (key : String) (i : ℕ) : Bool :=
  (s.sessions i).live && (s.sessions i).key = key

/-- The live connection of the device that authenticated last. -/
def latest (s : Connections) (key : String) : Option ℕ := s.authOrder.reverse.find? (s.liveAt key)

/-- A device with a live connection is registered with the latest one, which gets what is pushed. -/
def Registered (s : Connections) : Prop :=
  ∀ key, (∃ i, s.liveAt key i) → ∃ i, s.latest key = some i ∧ s.server.senders key = some i ∧
    ∀ message, ((s.notify key message).sessions i).posted = (s.sessions i).posted ++ [message]

def shutsDown (s : Connections) : Action → Option ℕ
  | .runPosted i _ => if (s.sessions i).overflows cfg then some i else none
  | .written i ok => if ok then none else some i
  | .readFailed i => some i
  | _ => none

/-- A live connection is shut down only while it is the only one of its device. -/
def undisturbed (s : Connections) (a : Action) : Bool :=
  (s.shutsDown cfg a).all fun i =>
    !(s.sessions i).live || s.authOrder.all fun j => j = i || !s.liveAt (s.sessions i).key j

section Invariant

variable {s s' : Connections} {i : ℕ}

/-- The registry holds the latest live connection of each device, and only live connections know
their device. -/
structure Inv (s : Connections) : Prop where
  ordered : ∀ i, (s.sessions i).live → i ∈ s.authOrder
  cleared : ∀ i, (s.sessions i).live = false → (s.sessions i).deviceId = ""
  pending : ∀ i, (s.sessions i).authPending → (s.sessions i).live = false
  registered : ∀ key i, s.latest key = some i → s.server.senders key = some i

theorem inv_init (server : Server) : ({ server } : Connections).Inv where
  ordered i h := by cases h
  cleared i _ := rfl
  pending i _ := rfl
  registered key i h := by cases h

theorem latest_mem {key : String} (h : s.latest key = some i) :
    i ∈ s.authOrder ∧ s.liveAt key i :=
  ⟨List.mem_reverse.mp (List.mem_of_find?_eq_some h), List.find?_some h⟩

theorem latest_isSome (hs : s.Inv) {key : String} (h : s.liveAt key i) :
    ∃ j, s.latest key = some j := by
  refine Option.isSome_iff_exists.mp (List.find?_isSome.mpr ⟨i, ?_, h⟩)
  exact List.mem_reverse.mpr (hs.ordered i (Bool.and_eq_true_iff.mp h).1)

theorem latest_congr {key : String} (hord : s'.authOrder = s.authOrder)
    (h : ∀ j, s'.liveAt key j = s.liveAt key j) : s'.latest key = s.latest key := by
  rw [latest, latest, hord, funext h]

/-- Handlers that leave the registry and the status of the connections keep the invariant. -/
theorem Inv.quiet (hs : s.Inv) (hsend : s'.server.senders = s.server.senders)
    (hord : s'.authOrder = s.authOrder)
    (hst : ∀ j, (s'.sessions j).status = (s.sessions j).status)
    (hpend : ∀ j, (s'.sessions j).authPending → (s.sessions j).authPending) : s'.Inv := by
  have hlive := fun j => WebSocketSession.live_eq_of_status (hst j)
  refine ⟨fun j h => ?_, fun j h => ?_, fun j h => ?_, fun key j h => ?_⟩
  · exact hord ▸ hs.ordered j (hlive j ▸ h)
  · exact (congrArg (·.2.1) (hst j)).trans (hs.cleared j (hlive j ▸ h))
  · rw [hlive j]
    exact hs.pending j (hpend j h)
  · rw [hsend]
    refine hs.registered key j ((latest_congr hord fun l => ?_).symm.trans h)
    rw [liveAt, liveAt, hlive l, WebSocketSession.key_eq_of_status (hst l)]

theorem status_setSession {c : WebSocketSession} (hc : c.status = (s.sessions i).status) (j : ℕ) :
    ((s.setSession i c).sessions j).status = (s.sessions j).status := by
  by_cases hj : j = i
  · subst hj
    simpa [setSession] using hc
  · simp [setSession, hj]

theorem Inv.setSession (hs : s.Inv) {c : WebSocketSession}
    (hc : c.status = (s.sessions i).status)
    (hpend : c.authPending → (s.sessions i).authPending) : (s.setSession i c).Inv := by
  refine hs.quiet rfl rfl (fun j => status_setSession hc j) fun j h => ?_
  · by_cases hj : j = i
    · subst hj
      exact hpend (by simpa [Connections.setSession] using h)
    · simpa [Connections.setSession, hj] using h

theorem Inv.notify (hs : s.Inv) (key : String) (message : PushMessage) :
    (s.notify key message).Inv := by
  unfold Connections.notify
  split
  · exact hs
  · rename_i i _
    have hset := hs.setSession (i := i)
      (c := { s.sessions i with posted := (s.sessions i).posted ++ [message] }) rfl id
    refine hset.quiet ?_ rfl (fun _ => rfl) fun _ h => h
    unfold WsPushRegistry.notify
    split <;> rfl

section Shutdown

variable (s i)

theorem shutdown_authOrder : (s.shutdown i).authOrder = s.authOrder := by
  unfold shutdown
  dsimp only
  split <;> rfl

theorem shutdown_sessions_of_ne {j : ℕ} (hj : j ≠ i) :
    (s.shutdown i).sessions j = s.sessions j := by
  unfold shutdown
  dsimp only
  split <;> simp [setSession, hj]

theorem shutdown_session : ((s.shutdown i).sessions i).live = false ∧
    ((s.shutdown i).sessions i).deviceId = "" ∧
      ((s.shutdown i).sessions i).authPending = (s.sessions i).authPending := by
  unfold shutdown
  dsimp only
  split
  · simp [setSession, WebSocketSession.live]
  · rename_i h
    simpa [setSession, WebSocketSession.live] using h

theorem shutdown_senders_of_ne {key : String}
    (h : (s.sessions i).deviceId = "" ∨ key ≠ (s.sessions i).key) :
    (s.shutdown i).server.senders key = s.server.senders key := by
  unfold shutdown
  dsimp only
  split
  · rename_i hd
    exact Function.update_of_ne (h.resolve_left hd) _ _
  · rfl

end Shutdown

theorem Inv.shutdown (hs : s.Inv)
    (halone : (s.sessions i).live → ∀ j, s.liveAt (s.sessions i).key j → j = i) :
    (s.shutdown i).Inv := by
  obtain ⟨hlive, hdev, hpend⟩ := shutdown_session s i
  refine ⟨fun j h => ?_, fun j h => ?_, fun j h => ?_, fun key j h => ?_⟩
  · rw [shutdown_authOrder]
    by_cases hj : j = i
    · subst hj
      exact absurd h (by simp [hlive])
    · exact hs.ordered j (shutdown_sessions_of_ne s i hj ▸ h)
  · by_cases hj : j = i
    · exact hj ▸ hdev
    · rw [shutdown_sessions_of_ne s i hj] at h ⊢
      exact hs.cleared j h
  · by_cases hj : j = i
    · exact hj ▸ hlive
    · rw [shutdown_sessions_of_ne s i hj] at h ⊢
      exact hs.pending j h
  · -- the latest one afterwards is live before, and another one than `i`
    have hj : j ≠ i := by
      rintro rfl
      have := (latest_mem h).2
      simp [liveAt, hlive] at this
    have hjs : s.liveAt key j := by
      have := (latest_mem h).2
      rwa [liveAt, shutdown_sessions_of_ne s i hj] at this
    have hne : (s.sessions i).live = false ∨ key ≠ (s.sessions i).key := by
      by_contra hcon
      simp only [not_or, Bool.not_eq_false, not_not] at hcon
      exact hj (halone hcon.1 j (hcon.2 ▸ hjs))
    rw [shutdown_senders_of_ne s i (hne.imp_left (hs.cleared i))]
    refine hs.registered key j ((latest_congr (shutdown_authOrder s i) fun l => ?_).symm.trans h)
    by_cases hl : l = i
    · subst hl
      rcases hne with hne | hne
      · simp [liveAt, hlive, hne]
      · simp [liveAt, hlive, hne.symm]
    · rw [liveAt, liveAt, shutdown_sessions_of_ne s i hl]

theorem Inv.setSession_shutdown (hs : s.Inv) {c : WebSocketSession}
    (hc : c.status = (s.sessions i).status)
    (hpend : c.authPending → (s.sessions i).authPending)
    (halone : (s.sessions i).live → ∀ j, s.liveAt (s.sessions i).key j → j = i) :
    ((s.setSession i c).shutdown i).Inv := by
  have hlive := fun j => WebSocketSession.live_eq_of_status (status_setSession hc j)
  have hkey := fun j => WebSocketSession.key_eq_of_status (status_setSession hc j)
  refine (hs.setSession hc hpend).shutdown fun hl j hj => halone (hlive i ▸ hl) j ?_
  rwa [liveAt, hlive j, hkey j, hkey i] at hj

theorem Inv.register (hs : s.Inv) (hdead : (s.sessions i).live = false) {c : WebSocketSession}
    (hc : c.live) (hpend : c.authPending = false) :
    Inv { s.setSession i c with
      server := WsPushRegistry.register c.key i s.server, authOrder := s.authOrder ++ [i] } := by
  have hsess : ∀ j, j ≠ i → (s.setSession i c).sessions j = s.sessions j :=
    fun j hj => Function.update_of_ne hj _ _
  have hself : (s.setSession i c).sessions i = c := Function.update_self _ _ _
  refine ⟨fun j h => ?_, fun j h => ?_, fun j h => ?_, fun key j h => ?_⟩
  · by_cases hj : j = i
    · exact hj ▸ List.mem_append_right _ (List.mem_singleton.mpr rfl)
    · exact List.mem_append_left _ (hs.ordered j (hsess j hj ▸ h))
  · by_cases hj : j = i
    · subst hj
      exact absurd (hself ▸ h) (by simp [hc])
    · exact (congrArg _ (hsess j hj)).trans (hs.cleared j (hsess j hj ▸ h))
  · by_cases hj : j = i
    · subst hj
      exact absurd (hself ▸ h) (by simp [hpend])
    · exact (congrArg _ (hsess j hj)).trans (hs.pending j (hsess j hj ▸ h))
  · by_cases hkey : key = c.key
    · -- it is live, and the last in the order
      have hi : (s.setSession i c).liveAt key i := by simp [liveAt, hself, hc, hkey]
      have hlast : some i = some j := by
        refine Eq.trans ?_ h
        rw [latest, List.reverse_append, List.reverse_singleton, List.singleton_append]
        exact (List.find?_cons_of_pos hi).symm
      cases hlast
      exact hkey ▸ Function.update_self _ _ _
    · have hlive : ∀ l, (s.setSession i c).liveAt key l = s.liveAt key l := by
        intro l
        by_cases hl : l = i
        · subst hl
          simp [liveAt, hself, hdead, Ne.symm hkey]
        · rw [liveAt, liveAt, hsess l hl]
      have hnot : ¬ (s.setSession i c).liveAt key i := by
        rw [hlive, liveAt, hdead]
        simp
      have hlast : s.latest key = some j := by
        refine Eq.trans ?_ h
        rw [latest, latest, List.reverse_append, List.reverse_singleton, List.singleton_append]
        rw [← funext hlive]
        exact (List.find?_cons_of_neg hnot).symm
      exact (Function.update_of_ne hkey _ _).trans (hs.registered key j hlast)

theorem Inv.finishAuth {cfg : ServerConfig} (hs : s.Inv) {token : String}
    (h : s.finishAuth cfg i token = some s') : s'.Inv := by
  unfold Connections.finishAuth at h
  dsimp only at h
  split at h
  · cases h
  rename_i hopen
  simp only [Bool.or_eq_true, Bool.not_eq_true', not_or, Bool.not_eq_false,
    Bool.not_eq_true] at hopen
  split at h
  · cases h
    exact hs.setSession rfl fun h => by cases h
  · cases h
    exact hs.register (hs.pending i hopen.1) (by simp [WebSocketSession.live, hopen.2]) rfl

theorem alone_of_undisturbed {cfg : ServerConfig} (hs : s.Inv) {a : Action}
    (hu : s.undisturbed cfg a) (ha : s.shutsDown cfg a = some i) (hl : (s.sessions i).live) (j : ℕ)
    (hj : s.liveAt (s.sessions i).key j) : j = i := by
  simp only [undisturbed, ha, Option.all_some, hl, Bool.not_true, Bool.false_or,
    List.all_eq_true] at hu
  have hmem := hs.ordered j (Bool.and_eq_true_iff.mp hj).1
  simpa [hj] using hu j hmem

theorem Inv.step {cfg : ServerConfig} (hs : s.Inv) {a : Action} (hu : s.undisturbed cfg a)
    (h : s.step cfg a = some s') : s'.Inv := by
  cases a with
  | finishAuth i token => exact hs.finishAuth h
  | notify key message =>
    cases h
    exact hs.notify key message
  | runPosted i k =>
    simp only [Connections.step, runPosted] at h
    split at h
    · cases h
    split at h
    · rename_i hover
      cases h
      exact hs.setSession_shutdown rfl id (alone_of_undisturbed hs hu (if_pos hover))
    · cases h
      obtain ⟨hst, hp⟩ := WebSocketSession.pumpOutbound_status
        { s.sessions i with posted := _, outbound := _ }
      exact hs.setSession hst fun h => hp ▸ h
  | written i ok =>
    simp only [Connections.step, written] at h
    split at h
    · cases h
    split at h
    · cases h
      obtain ⟨hst, hp⟩ := WebSocketSession.pumpOutbound_status
        { s.sessions i with writeInProgress := false }
      exact hs.setSession hst fun h => hp ▸ h
    · rename_i hok
      cases h
      exact hs.setSession_shutdown rfl id (alone_of_undisturbed hs hu (if_neg hok))
  | readFailed i =>
    simp only [Connections.step, readFailed] at h
    split at h
    · cases h
      exact hs.shutdown (alone_of_undisturbed hs hu rfl)
    · cases h
  | other db clock =>
    cases h
    exact hs.quiet rfl rfl (fun _ => rfl) fun _ h => h

theorem Inv.isRegistered (hs : s.Inv) : s.Registered := by
  rintro key ⟨i, hi⟩
  obtain ⟨j, hj⟩ := latest_isSome hs hi
  have hreg := hs.registered key j hj
  refine ⟨j, hj, hreg, fun message => ?_⟩
  simp only [Connections.notify, hreg, Connections.setSession, Function.update_self]

end Invariant

/-- In every interleaving that shuts a live connection down only while it is the only one of its
device, a device with live connections stays registered with the latest one. -/
theorem registered_of_undisturbed {server : Server} {acts : List Action} {s : Connections}
    (hrun : run cfg server acts = some s)
    (hu : Machine.always (step cfg) (undisturbed cfg) { server } acts) : s.Registered :=
  (Machine.run_invariant (step cfg) (fun _ _ _ hs hu h => hs.step hu h) (inv_init server) hrun
    hu).isRegistered

/-- One user with one device, and the access token `t`. -/
def aliceOnline : Server := (serve default {} registerAlice).state

def reconnect : List Action := [.finishAuth 0 "t", .readFailed 0, .finishAuth 1 "t"]

theorem reconnect_registered : (run default aliceOnline reconnect).any
    (·.liveAt (deviceScopeKey "a" "d") 1) ∧
      ∀ s, run default aliceOnline reconnect = some s → s.Registered :=
  ⟨by decide, fun _ h => registered_of_undisturbed default h (by decide)⟩

/-- The device connects again before its first connection is shut down; that one takes the new
connection out of the registry. -/
theorem early_reconnect_unregistered : ∃ s, run default aliceOnline
    [.finishAuth 0 "t", .finishAuth 1 "t", .readFailed 0] = some s ∧
      s.liveAt (deviceScopeKey "a" "d") 1 ∧ s.server.senders (deviceScopeKey "a" "d") = none ∧
        ¬ s.Registered := by
  refine ⟨_, rfl, by decide, by decide, fun h => ?_⟩
  obtain ⟨j, -, hj, -⟩ := h (deviceScopeKey "a" "d") ⟨1, by decide⟩
  have hnone : Option.isSome (none : Option ℕ) := Option.isSome_iff_exists.mpr ⟨j, hj⟩
  cases hnone

end Connections

end VoxServer
