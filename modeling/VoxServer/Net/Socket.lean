import VoxServer.Interleaving.Executor
import VoxServer.Net.HttpServer

/-! # The handlers of a WebSocket connection

The handlers of a connection run on the threads that run the `io_context`. There is no strand,
so several of them can be under way at once, and each access to a member, to the registry or to
the socket is a step of its own.
-/

namespace VoxServer

open Interleaving Http

/-- How the first `async_read` of a connection ends. -/
inductive WsFrame
  | failed
  | binary
  | text (data : String)
  deriving DecidableEq, Repr

def WsFrame.accessToken (cfg : ServerConfig) : WsFrame → Option String
  | .text data =>
    match cfg.parseJson data with
    | .ok (.obj o) =>
      match o.lookup "type", o.lookup "access_token" with
      | some (.str type), some (.str token) =>
        if cString type = "auth" then some (cString token) else none
      | _, _ => none
    | _ => none
  | _ => none

inductive TimerState
  | idle
  | waiting
  | cancelled
  deriving DecidableEq, Repr

/-- The members of a `WebSocketSession`, which handlers of it are outstanding, and the server. -/
structure Socket where
  server : Server
  /-- The connection as the registry knows it. -/
  number : ℕ := 0
  req : IncomingRequest
  deferredAuthActive : Bool := false
  userId : UserId := ""
  deviceId : DeviceId := ""
  outbound : List String := []
  writeInProgress : Bool := false
  accepting : Bool := true
  timer : TimerState := .idle
  readingFirst : Bool := false
  reading : Bool := false
  writes : ℕ := 0
  /-- The messages whose handlers `PostSend` has posted. -/
  posted : List String := []
  /-- The registry was given a callback; threads that have found it can still call it. -/
  registered : Bool := false
  closed : Bool := false

namespace Socket

/-- What a handler does in one step. -/
inductive Access
  | nowSeconds
  /-- It makes a single call of a repository. -/
  | validateAccessToken (token : String) (now : Timestamp)
  | register (key : String)
  | unregister (key : String)
  | deferredAuthActive
  | setDeferredAuthActive (b : Bool)
  | userId
  | setUserId (u : UserId)
  | deviceId
  | setDeviceId (d : DeviceId)
  | waitForTimer
  | cancelTimer
  | readFirst
  | read
  | writeInProgress
  | setWriteInProgress (b : Bool)
  | outboundSize
  | outboundEmpty
  | pushBack (msg : String)
  | moveFront
  | popFront
  /-- The buffer is over a string of `PumpOutbound`, see `WebSocketSession.asyncWrite`. -/
  | write (chunk : String)
  | shutdownTcp
  | close
  deriving DecidableEq, Repr

namespace Access

@[reducible] def Reply : Access → Type
  | nowSeconds => Timestamp
  | validateAccessToken .. => Result SessionRecord
  | deferredAuthActive | writeInProgress | outboundEmpty => Bool
  | userId => UserId
  | deviceId => DeviceId
  | outboundSize => ℕ
  | moveFront => String
  | _ => Unit

def exec (cfg : ServerConfig) : (c : Access) → Socket → c.Reply × Socket
  | nowSeconds, s => (s.server.clock, s)
  | validateAccessToken token now, s =>
    (((TokenManager.validateAccessToken cfg token now).run (Call.exec cfg) s.server).1, s)
  | register key, s =>
    ((), { s with server := WsPushRegistry.register key s.number s.server, registered := true })
  | unregister key, s => ((), { s with server := WsPushRegistry.unregister key s.server })
  | deferredAuthActive, s => (s.deferredAuthActive, s)
  | setDeferredAuthActive b, s => ((), { s with deferredAuthActive := b })
  | userId, s => (s.userId, s)
  | setUserId u, s => ((), { s with userId := u })
  | deviceId, s => (s.deviceId, s)
  | setDeviceId d, s => ((), { s with deviceId := d })
  | waitForTimer, s => ((), { s with timer := .waiting })
  | cancelTimer, s =>
    ((), { s with timer := if s.timer = .waiting then .cancelled else s.timer })
  | readFirst, s => ((), { s with readingFirst := true })
  | read, s => ((), { s with reading := true })
  | writeInProgress, s => (s.writeInProgress, s)
  | setWriteInProgress b, s => ((), { s with writeInProgress := b })
  | outboundSize, s => (s.outbound.length, s)
  | outboundEmpty, s => (s.outbound.isEmpty, s)
  | pushBack msg, s => ((), { s with outbound := s.outbound ++ [msg] })
  -- a string that was moved from stays in its place
  | moveFront, s =>
    (s.outbound.headD "", { s with outbound := s.outbound.modifyHead fun _ => "" })
  | popFront, s => ((), { s with outbound := s.outbound.tail })
  | write _, s => ((), { s with writes := s.writes + 1 })
  | shutdownTcp, s => ((), s)
  | close, s => ((), { s with closed := true })

end Access

abbrev SocketProg := Prog Access Access.Reply

def access (c : Access) : SocketProg c.Reply := Prog.perform c

def failTcpConnection : SocketProg Unit := access .shutdownTcp

def doRead : SocketProg Unit := access .read

def finishAuth (token : String) : SocketProg Unit := do
  let now ← access .nowSeconds
  match ← access (.validateAccessToken token now) with
  | .error _ => failTcpConnection
  | .ok session =>
    access (.setDeviceId session.deviceId)
    access (.setUserId session.userId)
    let userId ← access .userId
    let deviceId ← access .deviceId
    access (.register (deviceScopeKey userId deviceId))
    doRead

def onAccept (req : IncomingRequest) (ok : Bool) : SocketProg Unit :=
  if !ok then return
  else match parseBearer req with
    | some token => finishAuth token
    | none => do
      access (.setDeferredAuthActive true)
      access .waitForTimer
      access .readFirst

/-- The handler of `deferred_auth_timer_`. -/
def onTimer (aborted : Bool) : SocketProg Unit :=
  if aborted then return
  else do
    if ← access .deferredAuthActive then
      access (.setDeferredAuthActive false)
      failTcpConnection

/-- The handler of the first `async_read`. -/
def onFirstFrame (cfg : ServerConfig) (frame : WsFrame) : SocketProg Unit := do
  if ← access .deferredAuthActive then
    access (.setDeferredAuthActive false)
    access .cancelTimer
    match frame.accessToken cfg with
    | some token => finishAuth token
    | none => failTcpConnection

def shutdown : SocketProg Unit := do
  if (← access .deviceId) ≠ "" then
    let userId ← access .userId
    let deviceId ← access .deviceId
    access (.unregister (deviceScopeKey userId deviceId))
    access (.setDeviceId "")
    access (.setUserId "")
  access .close

def pumpOutbound : SocketProg Unit := do
  if ← access .writeInProgress then return
  else if ← access .outboundEmpty then return
  else
    access (.setWriteInProgress true)
    let chunk ← access .moveFront
    access .popFront
    access (.write chunk)

/-- The handler that `PostSend` posts. -/
def onPosted (cfg : ServerConfig) (msg : String) : SocketProg Unit := do
  if ← overflows then shutdown
  else
    access (.pushBack msg)
    pumpOutbound
where
  overflows : SocketProg Bool :=
    if 0 < cfg.maxWsOutboundQueue then do
      return (← access .outboundSize) ≥ cfg.maxWsOutboundQueue
    else return false

theorem onPosted_eq (cfg : ServerConfig) (msg : String) : onPosted cfg msg =
    if 0 < cfg.maxWsOutboundQueue then .call .outboundSize fun size =>
      if size ≥ cfg.maxWsOutboundQueue then shutdown
      else .call (.pushBack msg) fun _ => pumpOutbound
    else .call (.pushBack msg) fun _ => pumpOutbound := by
  split <;> simp [onPosted, onPosted.overflows, access, *]

/-- The handler of `async_write`. -/
def onWritten (ok : Bool) : SocketProg Unit := do
  access (.setWriteInProgress false)
  if ok then pumpOutbound else shutdown

/-- The handler of `DoRead`. -/
def onRead (ok : Bool) : SocketProg Unit :=
  if ok then doRead else shutdown

/-- The handlers, with how the operation that they are for ended. -/
inductive Handler
  | accept (ok : Bool)
  | timer (aborted : Bool)
  | firstFrame (frame : WsFrame)
  | posted
  | written (ok : Bool)
  | read (ok : Bool)
  deriving DecidableEq, Repr

def ready (cfg : ServerConfig) : Handler → Socket → Option (SocketProg Unit × Socket)
  | .accept ok, s =>
    if s.accepting then some (onAccept s.req ok, { s with accepting := false }) else none
  -- a timer that has run out can be cancelled, but only one that was cancelled is aborted
  | .timer aborted, s =>
    if s.timer = .cancelled ∨ s.timer = .waiting ∧ !aborted then
      some (onTimer aborted, { s with timer := .idle })
    else none
  | .firstFrame frame, s =>
    if s.readingFirst then some (onFirstFrame cfg frame, { s with readingFirst := false })
    else none
  | .posted, s =>
    match s.posted with
    | [] => none
    | msg :: posted => some (onPosted cfg msg, { s with posted })
  | .written ok, s =>
    if 0 < s.writes then some (onWritten ok, { s with writes := s.writes - 1 }) else none
  | .read ok, s => if s.reading then some (onRead ok, { s with reading := false }) else none

/-- What the rest of the server does: it calls `PostSend`, or changes its own state. -/
inductive Input
  | postSend (msg : String)
  | other (server : Server)

def env : Input → Socket → Option Socket
  | .postSend msg, s => if s.registered then some { s with posted := s.posted ++ [msg] } else none
  | .other server, s => some { s with server }

def executor (cfg : ServerConfig) : Executor Access Access.Reply Socket Handler Input where
  exec := Access.exec cfg
  env := env
  ready := ready cfg

abbrev World := Interleaving.World Access Socket Handler Input

/-- The handlers that can start, with what each of them runs and what it takes. -/
inductive Ready (cfg : ServerConfig) (s : Socket) : Handler → SocketProg Unit → Socket → Prop
  | accept (ok : Bool) (h : s.accepting) :
    Ready cfg s (.accept ok) (onAccept s.req ok) { s with accepting := false }
  | timer (aborted : Bool) (h : s.timer = .cancelled ∨ s.timer = .waiting ∧ !aborted) :
    Ready cfg s (.timer aborted) (onTimer aborted) { s with timer := .idle }
  | firstFrame (frame : WsFrame) (h : s.readingFirst) :
    Ready cfg s (.firstFrame frame) (onFirstFrame cfg frame) { s with readingFirst := false }
  | posted (msg : String) (posted : List String) (h : s.posted = msg :: posted) :
    Ready cfg s .posted (onPosted cfg msg) { s with posted }
  | written (ok : Bool) (h : 0 < s.writes) :
    Ready cfg s (.written ok) (onWritten ok) { s with writes := s.writes - 1 }
  | read (ok : Bool) (h : s.reading) :
    Ready cfg s (.read ok) (onRead ok) { s with reading := false }

section Ready

variable {cfg : ServerConfig} {handler : Handler} {p : SocketProg Unit}

theorem ready_of_eq_some {s s' : Socket} (h : ready cfg handler s = some (p, s')) :
    Ready cfg s handler p s' := by
  cases handler <;> simp only [ready] at h <;> split at h <;> cases h <;> constructor <;>
    assumption

theorem ready_of_start {w w' : World} (h : (executor cfg).start w handler = some (p, w')) :
    ∃ s, Ready cfg w.state handler p s ∧ w' = ⟨s, w.log ++ [.start handler]⟩ := by
  obtain ⟨⟨p, s⟩, hready, he⟩ := Option.map_eq_some_iff.mp h
  cases he
  exact ⟨s, ready_of_eq_some hready, rfl⟩

end Ready

/-- The connection after the actions, on a server with `n` threads for its handlers. -/
abbrev run (cfg : ServerConfig) (n : ℕ) (server : Server) (req : IncomingRequest)
    (acts : List (Executor.Action Handler Input)) :
    Option (Pool Access Access.Reply Socket Handler Input) :=
  (executor cfg).run n { server, req } acts

end Socket

end VoxServer
