import VoxServer.Net.Outbound

/-! # How connections authenticate

A WebSocket connection authenticates with the token of the upgrade request, or with the first
frame that it sends, unless the timer that is set for it runs out before. On any number of
threads, it presents at most one token, and is registered only for the device of a valid one.
The handlers of the timer and of the frame agree by a flag on which of them comes first, but
between reading and clearing it another thread can read it: a connection can then be shut down
and registered.
-/

namespace VoxServer.Socket

open Interleaving Executor Http

variable (cfg : ServerConfig)

/-- What `FinishAuth` found out and did. -/
inductive AuthEvent
  | refused (token : String)
  | accepted (token : String) (session : SessionRecord)
  | registered (key : String)
  deriving DecidableEq, Repr

def authEvent? : Occurrence Access Socket Handler Input → Option AuthEvent
  | .access (.validateAccessToken token now) s =>
    match ((Access.validateAccessToken token now).exec cfg s).1 with
    | .ok session => some (.accepted token session)
    | .error _ => some (.refused token)
  | .access (.register key) _ => some (.registered key)
  | _ => none

def authLog (w : World) : List AuthEvent := w.log.filterMap (authEvent? cfg)

/-- The token of the request, or of the first frame. -/
def Presented (w : World) (token : String) : Prop :=
  parseBearer w.state.req = some token ∨
    ∃ frame, .start (.firstFrame frame) ∈ w.log ∧ frame.accessToken cfg = some token

/-- At most one token has been looked at, which was presented. The connection was registered at
most once, and only if the token belonged to a session: under the key of its device. -/
inductive Authenticated (w : World) : List AuthEvent → Prop
  | waiting : Authenticated w []
  | refused {token : String} (h : Presented cfg w token) : Authenticated w [.refused token]
  | accepted {token : String} (h : Presented cfg w token) (session : SessionRecord) :
      Authenticated w [.accepted token session]
  | registered {token : String} (h : Presented cfg w token) (session : SessionRecord) :
      Authenticated w [.accepted token session,
        .registered (deviceScopeKey session.userId session.deviceId)]

/-- The registry does not know the connection, and nothing was sent to it or written. -/
structure Silent (w : World) : Prop where
  registered : w.state.registered = false
  posted : w.state.posted = []
  writes : w.state.writes = 0
  reading : w.state.reading = false
  sent : sent w = []
  handed : handed w = []

/-- The handlers that authenticate have been started, and something is sent or written only once
the connection is registered. -/
structure Underway (w : World) : Prop where
  accepting : w.state.accepting = false
  readingFirst : w.state.readingFirst = false
  auth : Authenticated cfg w (authLog cfg w)
  silent : Silent w ∨ w.state.registered ∧ ∃ key, .registered key ∈ authLog cfg w

/-- A handler that authenticates can still be started, or none is under way. -/
inductive Settled (w : World) : Prop
  | before (h : ¬ (w.state.accepting ∧ w.state.readingFirst)) (hsilent : Silent w)
      (hauth : authLog cfg w = []) : Settled w
  | after (h : Underway cfg w) : Settled w

/-- What the handler of the timer does. -/
def timerAccess : Access → Bool
  | .deferredAuthActive | .setDeferredAuthActive _ | .shutdownTcp => true
  | _ => false

/-- What the handlers do that send messages or wait for the end of the connection. -/
def messageAccess : Access → Bool
  | .writeInProgress | .setWriteInProgress _ | .outboundSize | .outboundEmpty | .pushBack _
  | .moveFront | .popFront | .write _ | .read | .userId | .setUserId _ | .deviceId
  | .setDeviceId _ | .unregister _ | .close => true
  | _ => false

/-- What all handlers do but those that authenticate. -/
def plainAccess : Access → Bool
  | .validateAccessToken .. | .register _ | .readFirst => false
  | _ => true

/-- What the handlers that authenticate do before they register the connection. -/
def setupAccess : Access → Bool
  | .nowSeconds | .validateAccessToken .. | .deferredAuthActive | .setDeferredAuthActive _
  | .userId | .setUserId _ | .deviceId | .setDeviceId _ | .waitForTimer | .cancelTimer
  | .readFirst | .shutdownTcp => true
  | _ => false

/-- What handlers can do while another one authenticates. -/
def allowed (s : Socket) (c : Access) : Prop :=
  plainAccess c ∧ (s.registered = false → timerAccess c)

section AnyThreads

variable {cfg} {n : ℕ} {w w' : World} {c : Access} {token : String} {l : List AuthEvent}

theorem authLog_access (hc : plainAccess c) :
    authLog cfg ((executor cfg).access w c).2 = authLog cfg w := by
  have hnone : authEvent? cfg (.access c w.state) = none := by
    cases c with
    | validateAccessToken | register => cases hc
    | _ => rfl
  simp [authLog, Executor.access, List.filterMap_append, hnone]

theorem Presented.mono (h : Presented cfg w token) (hreq : w'.state.req = w.state.req)
    (hlog : w.log ⊆ w'.log) : Presented cfg w' token := by
  rcases h with h | ⟨frame, hmem, hframe⟩
  · exact .inl (hreq ▸ h)
  · exact .inr ⟨frame, hlog hmem, hframe⟩

theorem Authenticated.mono (h : Authenticated cfg w l) (hreq : w'.state.req = w.state.req)
    (hlog : w.log ⊆ w'.log) : Authenticated cfg w' l := by
  cases h with
  | waiting => exact .waiting
  | refused h => exact .refused (h.mono hreq hlog)
  | accepted h session => exact .accepted (h.mono hreq hlog) session
  | registered h session => exact .registered (h.mono hreq hlog) session

theorem plainAccess_of_timerAccess (hc : timerAccess c) : plainAccess c := by
  cases c with
  | validateAccessToken | register | readFirst => cases hc
  | _ => rfl

theorem plainAccess_of_messageAccess (hc : messageAccess c) : plainAccess c := by
  cases c with
  | validateAccessToken | register | readFirst => cases hc
  | _ => rfl

theorem exec_plainAccess (cfg : ServerConfig) (hc : plainAccess c) (s : Socket) :
    (c.exec cfg s).2.accepting = s.accepting ∧ (c.exec cfg s).2.readingFirst = s.readingFirst ∧
      (c.exec cfg s).2.req = s.req ∧ (c.exec cfg s).2.registered = s.registered := by
  cases c with
  | validateAccessToken | register | readFirst => cases hc
  | _ => exact ⟨rfl, rfl, rfl, rfl⟩

theorem setupAccess_of_timerAccess (hc : timerAccess c) : setupAccess c := by
  cases c with
  | deferredAuthActive | setDeferredAuthActive | shutdownTcp => rfl
  | _ => cases hc

theorem exec_timerAccess (cfg : ServerConfig) (hc : timerAccess c) (s : Socket) :
    ∃ b, (c.exec cfg s).2 = { s with deferredAuthActive := b } := by
  cases c with
  | deferredAuthActive | shutdownTcp => exact ⟨s.deferredAuthActive, rfl⟩
  | setDeferredAuthActive b => exact ⟨b, rfl⟩
  | _ => cases hc

theorem exec_setupAccess (cfg : ServerConfig) (hc : setupAccess c) (s : Socket) :
    (c.exec cfg s).2.registered = s.registered ∧ (c.exec cfg s).2.posted = s.posted ∧
      (c.exec cfg s).2.writes = s.writes ∧ (c.exec cfg s).2.reading = s.reading := by
  cases c with
  | register | read | write => cases hc
  | _ => exact ⟨rfl, rfl, rfl, rfl⟩

theorem ready_frame {handler : Handler} {s s' : Socket} {p : SocketProg Unit}
    (h : Ready cfg s handler p s') : s'.req = s.req ∧ s'.registered = s.registered ∧
      (s.accepting = false → s'.accepting = false) ∧
        (s.readingFirst = false → s'.readingFirst = false) := by
  cases h with
  | accept => exact ⟨rfl, rfl, fun _ => rfl, id⟩
  | firstFrame => exact ⟨rfl, rfl, id, fun _ => rfl⟩
  | _ => exact ⟨rfl, rfl, id, id⟩

theorem ready_of_silent {handler : Handler} {s' : Socket} {p : SocketProg Unit} (hw : Silent w)
    (h : Ready cfg w.state handler p s') :
    (∃ ok, handler = .accept ok ∧ w.state.accepting ∧ p = onAccept w.state.req ok ∧
      s' = { w.state with accepting := false }) ∨
    (∃ aborted, p = onTimer aborted ∧ s' = { w.state with timer := .idle }) ∨
    ∃ frame, handler = .firstFrame frame ∧ w.state.readingFirst ∧ p = onFirstFrame cfg frame ∧
      s' = { w.state with readingFirst := false } := by
  cases h with
  | accept ok ha => exact .inl ⟨ok, rfl, ha, rfl, rfl⟩
  | timer aborted => exact .inr (.inl ⟨aborted, rfl, rfl⟩)
  | firstFrame frame hr => exact .inr (.inr ⟨frame, rfl, hr, rfl, rfl⟩)
  | posted msg posted h => simp [hw.posted] at h
  | written ok h => simp [hw.writes] at h
  | read ok h => simp [hw.reading] at h

section Frame

variable {handler : Handler} {e : Input} {s : Socket}

theorem authLog_start : authLog cfg ⟨s, w.log ++ [.start handler]⟩ = authLog cfg w := by
  simp [authLog, List.filterMap_append, authEvent?]

theorem authLog_input (h : (executor cfg).input w e = some w') :
    authLog cfg w' = authLog cfg w ∧ w.log ⊆ w'.log := by
  obtain ⟨s, -, rfl⟩ := Option.map_eq_some_iff.mp h
  exact ⟨by simp [authLog, List.filterMap_append, authEvent?], List.subset_append_left _ _⟩

theorem input_frame (h : (executor cfg).input w e = some w') :
    ∃ posted server, w'.state = { w.state with posted, server } ∧
      (w.state.registered = false → posted = w.state.posted ∧ sent w' = sent w) ∧
        handed w' = handed w := by
  obtain ⟨s, hs, rfl⟩ := Option.map_eq_some_iff.mp h
  cases e with
  | postSend msg =>
    simp only [executor, env] at hs
    split at hs
    · rename_i hreg
      cases hs
      exact ⟨_, w.state.server, rfl, fun hno => by simp [hreg] at hno,
        by simp [handed, List.filterMap_append]⟩
    · cases hs
  | other server =>
    cases hs
    exact ⟨w.state.posted, server, rfl, fun _ => ⟨rfl, by simp [sent, List.filterMap_append]⟩,
      by simp [handed, List.filterMap_append]⟩

theorem Silent.input (hw : Silent w) (h : (executor cfg).input w e = some w') : Silent w' := by
  obtain ⟨posted, server, hst, hsame, hhanded⟩ := input_frame h
  obtain ⟨rfl, hsent⟩ := hsame hw.registered
  exact ⟨by rw [hst]; exact hw.registered, by rw [hst]; exact hw.posted,
    by rw [hst]; exact hw.writes, by rw [hst]; exact hw.reading, hsent.trans hw.sent,
    hhanded.trans hw.handed⟩

theorem Silent.start (hw : Silent w) (hregistered : s.registered = w.state.registered)
    (hposted : s.posted = w.state.posted) (hwrites : s.writes = w.state.writes)
    (hreading : s.reading = w.state.reading) : Silent ⟨s, w.log ++ [.start handler]⟩ where
  registered := hregistered.trans hw.registered
  posted := hposted.trans hw.posted
  writes := hwrites.trans hw.writes
  reading := hreading.trans hw.reading
  sent := by
    rw [← hw.sent]
    simp [Socket.sent, List.filterMap_append]
  handed := by
    rw [← hw.handed]
    simp [Socket.handed, List.filterMap_append]

theorem Silent.access (hw : Silent w) (hc : setupAccess c) :
    Silent ((executor cfg).access w c).2 := by
  obtain ⟨hregistered, hposted, hwrites, hreading⟩ := exec_setupAccess cfg hc w.state
  have hwrite : ∀ chunk, c ≠ .write chunk := by
    rintro chunk rfl
    cases hc
  exact ⟨hregistered.trans hw.registered, hposted.trans hw.posted, hwrites.trans hw.writes,
    hreading.trans hw.reading, sent_access.trans hw.sent, (handed_access hwrite).trans hw.handed⟩

end Frame

theorem Underway.input {e : Input} (hw : Underway cfg w)
    (h : (executor cfg).input w e = some w') : Underway cfg w' := by
  obtain ⟨hauth, hlog⟩ := authLog_input h
  obtain ⟨posted, server, hst, -, -⟩ := input_frame h
  refine ⟨by rw [hst]; exact hw.accepting, by rw [hst]; exact hw.readingFirst, ?_, ?_⟩
  · rw [hauth]
    exact hw.auth.mono (by rw [hst]) hlog
  · rw [hauth]
    refine hw.silent.imp (fun hs => hs.input h) fun hreg => ⟨?_, hreg.2⟩
    rw [hst]
    exact hreg.1

theorem Underway.access (hw : Underway cfg w) (hc : allowed w.state c) :
    Underway cfg ((executor cfg).access w c).2 := by
  obtain ⟨ha, hr, hreq, hreg⟩ := exec_plainAccess cfg hc.1 w.state
  refine ⟨ha.trans hw.accepting, hr.trans hw.readingFirst, ?_, ?_⟩
  · rw [authLog_access hc.1]
    exact hw.auth.mono hreq (List.subset_append_left _ _)
  · rw [authLog_access hc.1]
    refine hw.silent.imp (fun hs => ?_) fun h => ⟨hreg.trans h.1, h.2⟩
    exact hs.access (setupAccess_of_timerAccess (hc.2 hs.registered))

theorem Underway.start {handler : Handler} {p : SocketProg Unit} (hw : Underway cfg w)
    (h : (executor cfg).start w handler = some (p, w')) : Underway cfg w' := by
  obtain ⟨s, hready, rfl⟩ := ready_of_start h
  obtain ⟨hreq, hreg, ha, hr⟩ := ready_frame hready
  refine ⟨ha hw.accepting, hr hw.readingFirst, ?_, ?_⟩
  · rw [authLog_start]
    exact hw.auth.mono hreq (List.subset_append_left _ _)
  · rw [authLog_start]
    refine hw.silent.imp (fun hs => ?_) fun h => ⟨hreg.trans h.1, h.2⟩
    rcases ready_of_silent hs hready with ⟨-, -, hacc, -⟩ | ⟨-, -, rfl⟩ | ⟨-, -, hfirst, -⟩
    · simp [hw.accepting] at hacc
    · exact hs.start rfl rfl rfl rfl
    · simp [hw.readingFirst] at hfirst

theorem Underway.meanwhile (hw : Underway cfg w)
    (h : Meanwhile (executor cfg) n allowed w w') : Underway cfg w' := by
  cases h with
  | input h => exact hw.input h
  | start _ hs => exact hw.start hs
  | access _ hc => exact hw.access hc

theorem only_onTimer_allowed (s : Socket) (aborted : Bool) :
    (onTimer aborted).Only (allowed s) := by
  refine Prog.Only.mono (P := (timerAccess ·)) (fun c hc => ?_) ?_
  · exact ⟨plainAccess_of_timerAccess hc, fun _ => hc⟩
  · unfold onTimer
    split
    · trivial
    · refine ⟨rfl, fun active => ?_⟩
      cases active with
      | true => exact ⟨rfl, fun _ => ⟨rfl, fun _ => trivial⟩⟩
      | false => trivial

theorem only_shutdown : shutdown.Only (messageAccess ·) := by
  refine ⟨rfl, fun deviceId => ?_⟩
  change Prog.Only _ (if deviceId ≠ "" then _ else _)
  split
  · refine ⟨rfl, fun _ => ⟨rfl, fun _ => ⟨rfl, fun _ => ⟨rfl, fun _ => ⟨rfl, fun _ => ?_⟩⟩⟩⟩⟩
    exact ⟨rfl, fun _ => trivial⟩
  · exact ⟨rfl, fun _ => trivial⟩

theorem only_pumpOutbound : pumpOutbound.Only (messageAccess ·) := by
  refine ⟨rfl, fun wip => ?_⟩
  cases wip with
  | true => trivial
  | false =>
    refine ⟨rfl, fun empty => ?_⟩
    cases empty with
    | true => trivial
    | false =>
      exact ⟨rfl, fun _ => ⟨rfl, fun _ => ⟨rfl, fun _ => ⟨rfl, fun _ => trivial⟩⟩⟩⟩

theorem only_onPosted (msg : String) : (onPosted cfg msg).Only (messageAccess ·) := by
  have hpush : Prog.Only (messageAccess ·) (.call (.pushBack msg) fun _ => pumpOutbound) :=
    ⟨rfl, fun _ => only_pumpOutbound⟩
  rw [onPosted_eq]
  split
  · refine ⟨rfl, fun size => ?_⟩
    beta_reduce
    split
    · exact only_shutdown
    · exact hpush
  · exact hpush

theorem only_onWritten (ok : Bool) : (onWritten ok).Only (messageAccess ·) := by
  refine ⟨rfl, fun _ => ?_⟩
  cases ok with
  | true => exact only_pumpOutbound
  | false => exact only_shutdown

theorem only_onRead (ok : Bool) : (onRead ok).Only (messageAccess ·) := by
  cases ok with
  | true => exact ⟨rfl, fun _ => trivial⟩
  | false => exact only_shutdown

theorem Underway.alone {handler : Handler} {p : SocketProg Unit} (hw : Underway cfg w)
    (h : (executor cfg).start w handler = some (p, w')) : p.Only (allowed w'.state) := by
  obtain ⟨s, hready, rfl⟩ := ready_of_start h
  rcases hw.silent with hs | ⟨hreg, -⟩
  · rcases ready_of_silent hs hready with ⟨-, -, hacc, -⟩ | ⟨aborted, rfl, -⟩ | ⟨-, -, hfirst, -⟩
    · simp [hw.accepting] at hacc
    · exact only_onTimer_allowed s aborted
    · simp [hw.readingFirst] at hfirst
  · have hallowed : ∀ {p : SocketProg Unit}, p.Only (messageAccess ·) → p.Only (allowed s) := by
      refine fun hp => hp.mono fun c hc => ⟨plainAccess_of_messageAccess hc, fun hno => ?_⟩
      have hsame : s.registered = w.state.registered := (ready_frame hready).2.1
      simp [hsame, hreg] at hno
    cases hready with
    | accept ok hacc => simp [hw.accepting] at hacc
    | firstFrame frame hfirst => simp [hw.readingFirst] at hfirst
    | timer aborted => exact only_onTimer_allowed _ aborted
    | posted msg => exact hallowed (only_onPosted msg)
    | written ok => exact hallowed (only_onWritten ok)
    | read ok => exact hallowed (only_onRead ok)

/-- In the middle of a handler that authenticates, before it registers the connection. The events
so far are known, a token was presented, and the members for the user and the device meet `φ`. -/
structure Stage (cfg : ServerConfig) (tokens : List String) (l : List AuthEvent)
    (φ : UserId → DeviceId → Prop) (w : World) : Prop where
  accepting : w.state.accepting = false
  readingFirst : w.state.readingFirst = false
  silent : Silent w
  log : authLog cfg w = l
  auth : Authenticated cfg w l
  presented : ∀ token ∈ tokens, Presented cfg w token
  members : φ w.state.userId w.state.deviceId

variable {tokens : List String} {φ ψ : UserId → DeviceId → Prop}

theorem Stage.underway (hw : Stage cfg tokens l φ w) : Underway cfg w :=
  ⟨hw.accepting, hw.readingFirst, hw.log ▸ hw.auth, .inl hw.silent⟩

theorem Stage.congr (hw : Stage cfg tokens l φ w) (hsilent : Silent w')
    (hlog : authLog cfg w' = authLog cfg w) (hsub : w.log ⊆ w'.log)
    (haccepting : w'.state.accepting = w.state.accepting)
    (hreading : w'.state.readingFirst = w.state.readingFirst)
    (hreq : w'.state.req = w.state.req) (hmembers : ψ w'.state.userId w'.state.deviceId) :
    Stage cfg tokens l ψ w' where
  accepting := haccepting.trans hw.accepting
  readingFirst := hreading.trans hw.readingFirst
  silent := hsilent
  log := hlog.trans hw.log
  auth := hw.auth.mono hreq hsub
  presented token ht := (hw.presented token ht).mono hreq hsub
  members := hmembers

theorem Stage.meanwhile (hw : Stage cfg tokens l φ w)
    (h : Meanwhile (executor cfg) n allowed w w') : Stage cfg tokens l φ w' := by
  cases h with
  | input h =>
    obtain ⟨hlog, hsub⟩ := authLog_input h
    obtain ⟨posted, server, hst, -, -⟩ := input_frame h
    refine hw.congr (hw.silent.input h) hlog hsub ?_ ?_ ?_ ?_ <;> rw [hst]
    exact hw.members
  | start _ hs =>
    obtain ⟨s, hready, rfl⟩ := ready_of_start hs
    rcases ready_of_silent hw.silent hready with
      ⟨-, -, hacc, -⟩ | ⟨-, -, rfl⟩ | ⟨-, -, hfirst, -⟩
    · simp [hw.accepting] at hacc
    · exact hw.congr (hw.silent.start rfl rfl rfl rfl) authLog_start
        (List.subset_append_left _ _) rfl rfl rfl hw.members
    · simp [hw.readingFirst] at hfirst
  | access _ hc =>
    have htimer := hc.2 hw.silent.registered
    obtain ⟨b, hb⟩ := exec_timerAccess cfg htimer w.state
    refine hw.congr (hw.silent.access (setupAccess_of_timerAccess htimer)) (authLog_access hc.1)
      (List.subset_append_left _ _) ?_ ?_ ?_ ?_ <;> simp only [Executor.access, executor, hb]
    exact hw.members

theorem Stage.access (hw : Stage cfg tokens l φ w) (hc : setupAccess c) (hplain : plainAccess c)
    (hmembers : ψ (c.exec cfg w.state).2.userId (c.exec cfg w.state).2.deviceId) :
    Stage cfg tokens l ψ ((executor cfg).access w c).2 := by
  obtain ⟨ha, hr, hreq, -⟩ := exec_plainAccess cfg hplain w.state
  exact hw.congr (hw.silent.access hc) (authLog_access hplain) (List.subset_append_left _ _) ha hr
    hreq hmembers

variable (cfg n) in
/-- The handler authenticates at most once, and leaves the handshake settled. -/
abbrev Authenticates (p : SocketProg Unit) (w : World) : Prop :=
  Leads (executor cfg) n allowed (Underway cfg) (Settled cfg) p w

theorem authenticates_call {f : c.Reply → SocketProg Unit} (hw : Stage cfg tokens l φ w)
    (hf : ∀ w, Stage cfg tokens l φ w →
      Authenticates cfg n (f ((executor cfg).access w c).1) ((executor cfg).access w c).2) :
    Authenticates cfg n (.call c f) w :=
  leads_call hw (fun hw h => hw.meanwhile h) (fun hw => hw.underway) hf

theorem authenticates_step {f : c.Reply → SocketProg Unit} (ψ : UserId → DeviceId → Prop)
    (hc : setupAccess c) (hplain : plainAccess c) (hw : Stage cfg tokens l φ w)
    (hψ : ∀ s : Socket, φ s.userId s.deviceId →
      ψ (c.exec cfg s).2.userId (c.exec cfg s).2.deviceId)
    (hf : ∀ s : Socket, φ s.userId s.deviceId → ∀ w, Stage cfg tokens l ψ w →
      Authenticates cfg n (f (c.exec cfg s).1) w) : Authenticates cfg n (.call c f) w :=
  authenticates_call hw fun w hw =>
    hf w.state hw.members _ (hw.access hc hplain (hψ w.state hw.members))

theorem authenticates_failTcpConnection (hw : Stage cfg tokens l φ w) :
    Authenticates cfg n failTcpConnection w :=
  authenticates_step φ rfl rfl hw (fun _ h => h) fun _ _ _ hw => .after hw.underway

theorem authenticates_doRead (hw : Underway cfg w) (hreg : w.state.registered) :
    Authenticates cfg n doRead w := by
  have hboth : Underway cfg w ∧ w.state.registered := ⟨hw, hreg⟩
  refine leads_call (A := fun w => Underway cfg w ∧ w.state.registered) hboth ?_ (fun h => h.1) ?_
  · rintro w w' ⟨hw, hreg⟩ h
    refine ⟨hw.meanwhile h, ?_⟩
    cases h with
    | input h =>
      obtain ⟨posted, server, hst, -, -⟩ := input_frame h
      rw [hst]
      exact hreg
    | start _ hs =>
      obtain ⟨s, hready, rfl⟩ := ready_of_start hs
      exact (ready_frame hready).2.1.trans hreg
    | access _ hc => exact (exec_plainAccess cfg hc.1 w.state).2.2.2.trans hreg
  · rintro w ⟨hw, hreg⟩
    exact .after (hw.access ⟨rfl, fun hno => by simp [hreg] at hno⟩)

theorem Stage.register {session : SessionRecord}
    (hw : Stage cfg [token] [.accepted token session] φ w) : Underway cfg ((executor cfg).access w
      (.register (deviceScopeKey session.userId session.deviceId))).2 := by
  have hlog : authLog cfg ((executor cfg).access w
      (.register (deviceScopeKey session.userId session.deviceId))).2 =
      [.accepted token session,
        .registered (deviceScopeKey session.userId session.deviceId)] := by
    have hbefore := hw.log
    simp only [authLog, Executor.access, List.filterMap_append, authEvent?] at hbefore ⊢
    rw [hbefore]
    rfl
  have hpresented : Presented cfg ((executor cfg).access w
      (.register (deviceScopeKey session.userId session.deviceId))).2 token :=
    (hw.presented token (List.mem_singleton_self _)).mono rfl (List.subset_append_left _ _)
  refine ⟨hw.accepting, hw.readingFirst, ?_, .inr ⟨rfl, ?_⟩⟩
  · rw [hlog]
    exact .registered hpresented session
  · rw [hlog]
    exact ⟨_, List.mem_cons_of_mem _ (List.mem_singleton_self _)⟩

theorem authenticates_admit {session : SessionRecord}
    (hw : Stage cfg [token] [.accepted token session] (fun _ _ => True) w) :
    Authenticates cfg n (do
      access (.setDeviceId session.deviceId)
      access (.setUserId session.userId)
      let userId ← access .userId
      let deviceId ← access .deviceId
      access (.register (deviceScopeKey userId deviceId))
      doRead) w := by
  refine authenticates_step (fun _ d => d = session.deviceId) rfl rfl hw (fun _ _ => rfl) ?_
  intro _ _ w hw
  let both : UserId → DeviceId → Prop := fun u d => u = session.userId ∧ d = session.deviceId
  refine authenticates_step both rfl rfl hw (fun _ hd => ⟨rfl, hd⟩) fun _ _ w hw => ?_
  refine authenticates_step both rfl rfl hw (fun _ h => h) fun s hs w hw => ?_
  rw [show (Access.exec cfg .userId s).1 = session.userId from hs.1]
  refine authenticates_step both rfl rfl hw (fun _ h => h) fun s hs w hw => ?_
  rw [show (Access.exec cfg .deviceId s).1 = session.deviceId from hs.2]
  -- from here on other handlers can be started, and the members do not matter any more
  exact authenticates_call hw fun w hw => authenticates_doRead hw.register rfl

theorem Stage.validated {now : Timestamp} (hw : Stage cfg [token] [] φ w) {ev : AuthEvent}
    (hev : authEvent? cfg (.access (.validateAccessToken token now) w.state) = some ev)
    (hauth : Authenticated cfg ((executor cfg).access w (.validateAccessToken token now)).2 [ev]) :
    Stage cfg [token] [ev] φ ((executor cfg).access w (.validateAccessToken token now)).2 where
  accepting := hw.accepting
  readingFirst := hw.readingFirst
  silent := hw.silent.access rfl
  log := by
    have hbefore := hw.log
    simp only [authLog, Executor.access, List.filterMap_append] at hbefore ⊢
    rw [hbefore, List.filterMap_cons, hev]
    rfl
  auth := hauth
  presented t ht := (hw.presented t ht).mono rfl (List.subset_append_left _ _)
  members := hw.members

theorem authenticates_finishAuth (hw : Stage cfg [token] [] (fun _ _ => True) w) :
    Authenticates cfg n (finishAuth token) w := by
  refine authenticates_step (fun _ _ => True) rfl rfl hw (fun _ h => h) fun s _ w hw => ?_
  generalize (Access.exec cfg .nowSeconds s).1 = now
  refine authenticates_call hw fun w hw => ?_
  -- the token is looked at, which is an event
  have hpresented : Presented cfg ((executor cfg).access w (.validateAccessToken token now)).2
      token := (hw.presented token (by simp)).mono rfl (List.subset_append_left _ _)
  cases hres : ((executor cfg).access w (.validateAccessToken token now)).1 with
  | error e =>
    refine authenticates_failTcpConnection (hw.validated ?_ (.refused hpresented))
    simp only [authEvent?]
    rw [show ((Access.validateAccessToken token now).exec cfg w.state).1 = .error e from hres]
  | ok session =>
    refine authenticates_admit (hw.validated ?_ (.accepted hpresented session))
    simp only [authEvent?]
    rw [show ((Access.validateAccessToken token now).exec cfg w.state).1 = .ok session from hres]

theorem authenticates_onAccept {ok : Bool} (hw : Stage cfg [] [] (fun _ _ => True) w) :
    Authenticates cfg n (onAccept w.state.req ok) w := by
  unfold onAccept
  split
  · exact .after hw.underway
  split
  · rename_i token htoken
    refine authenticates_finishAuth { hw with presented := fun t ht => ?_ }
    rw [List.mem_singleton.mp ht]
    exact .inl htoken
  · refine authenticates_step (fun _ _ => True) rfl rfl hw (fun _ h => h) fun _ _ w hw => ?_
    refine authenticates_step (fun _ _ => True) rfl rfl hw (fun _ h => h) fun _ _ w hw => ?_
    refine authenticates_call hw fun w hw => .before (fun h => ?_) (hw.silent.access rfl) ?_
    · have haccepting : ((executor cfg).access w .readFirst).2.state.accepting = false :=
        hw.accepting
      simp [haccepting] at h
    · have hlog := hw.log
      simp only [authLog, Executor.access, List.filterMap_append] at hlog ⊢
      rw [hlog]
      rfl

theorem authenticates_onFirstFrame {frame : WsFrame} (hw : Stage cfg [] [] (fun _ _ => True) w)
    (hframe : .start (.firstFrame frame) ∈ w.log) :
    Authenticates cfg n (onFirstFrame cfg frame) w := by
  -- once the frame is there, its token has been presented
  have hstage : Stage cfg (frame.accessToken cfg).toList [] (fun _ _ => True) w := by
    refine { hw with presented := fun token ht => .inr ⟨frame, hframe, ?_⟩ }
    exact Option.mem_toList.mp ht
  refine authenticates_step (fun _ _ => True) rfl rfl hstage (fun _ h => h) fun s _ w hw => ?_
  generalize (Access.exec cfg .deferredAuthActive s).1 = active
  cases active with
  | false => exact .after hw.underway
  | true =>
    refine authenticates_step (fun _ _ => True) rfl rfl hw (fun _ h => h) fun _ _ w hw => ?_
    refine authenticates_step (fun _ _ => True) rfl rfl hw (fun _ h => h) fun _ _ w hw => ?_
    cases htoken : frame.accessToken cfg with
    | none => exact authenticates_failTcpConnection hw
    | some token =>
      rw [htoken] at hw
      exact authenticates_finishAuth hw

theorem keeps_settled (cfg : ServerConfig) (n : ℕ) :
    Keeps (executor cfg) n allowed (Underway cfg) (Settled cfg) where
  input {w w' e} hw h := by
    cases hw with
    | before hone hsilent hauth =>
      obtain ⟨posted, server, hst, -, -⟩ := input_frame h
      refine .before ?_ (hsilent.input h) ((authLog_input h).1.trans hauth)
      rw [hst]
      exact hone
    | after hw => exact .after (hw.input h)
  access {w c} hw hc := by
    cases hw with
    | before hone hsilent hauth =>
      have htimer := hc.2 hsilent.registered
      obtain ⟨ha, hr, -, -⟩ := exec_plainAccess cfg hc.1 w.state
      refine .before ?_ (hsilent.access (setupAccess_of_timerAccess htimer))
        ((authLog_access hc.1).trans hauth)
      simp only [Executor.access, executor, ha, hr]
      exact hone
    | after hw => exact .after (hw.access hc)
  start {w w' handler p} hw hs := by
    cases hw with
    | after hw => exact .inl ⟨.after (hw.start hs), hw.alone hs⟩
    | before hone hsilent hauth =>
      obtain ⟨s, hready, rfl⟩ := ready_of_start hs
      have hlog : authLog cfg ⟨s, w.log ++ [.start handler]⟩ = [] := authLog_start.trans hauth
      rcases ready_of_silent hsilent hready with
        ⟨ok, rfl, hacc, rfl, rfl⟩ | ⟨aborted, rfl, rfl⟩ | ⟨frame, rfl, hfirst, rfl, rfl⟩
      · right
        have hno : w.state.readingFirst = false := by simpa [hacc] using hone
        have hstage : Stage cfg [] [] (fun _ _ => True)
            ⟨{ w.state with accepting := false }, w.log ++ [.start (.accept ok)]⟩ :=
          ⟨rfl, hno, hsilent.start rfl rfl rfl rfl, hlog, .waiting, by simp, trivial⟩
        exact authenticates_onAccept hstage
      · refine .inl ⟨.before hone (hsilent.start rfl rfl rfl rfl) hlog, ?_⟩
        exact only_onTimer_allowed _ aborted
      · right
        have hno : w.state.accepting = false := by simpa [hfirst] using hone
        exact authenticates_onFirstFrame ⟨hno, rfl, hsilent.start rfl rfl rfl rfl, hlog, .waiting,
          by simp, trivial⟩ (by simp)
  alone _ hw hs := hw.alone hs
  grow_env {e s s' c} h hc := by
    refine ⟨hc.1, fun hno => hc.2 ?_⟩
    cases e with
    | postSend msg =>
      simp only [executor, env] at h
      split at h <;> cases h
      exact hno
    | other server =>
      cases h
      exact hno
  grow_ready h hc := by
    refine ⟨hc.1, fun hno => hc.2 ?_⟩
    exact (ready_frame (ready_of_eq_some h)).2.1.symm.trans hno
  grow_exec {c' s c} hc := by
    refine ⟨hc.1, fun hno => hc.2 ?_⟩
    cases c' with
    | register key => cases hno
    | _ => exact hno

end AnyThreads

/-- In every run, on any number of threads, a connection presents at most one token, is registered
only for the session of that token, and nothing is sent to it or written before. -/
theorem authenticated_once (cfg : ServerConfig) (n : ℕ) (server : Server) (req : IncomingRequest)
    (acts : List (Executor.Action Handler Input))
    {x : Pool Access Access.Reply Socket Handler Input}
    (hrun : run cfg n server req acts = some x) :
    Authenticated cfg x.toWorld (authLog cfg x.toWorld) ∧
      (sent x.toWorld ++ handed x.toWorld = [] ∨
        ∃ key, .registered key ∈ authLog cfg x.toWorld) := by
  have h0 : Settled cfg ⟨{ server, req }, []⟩ :=
    .before (by simp) ⟨rfl, rfl, rfl, rfl, rfl, rfl⟩ rfl
  have hunderway : ∀ {w : World}, Underway cfg w → Authenticated cfg w (authLog cfg w) ∧
      (sent w ++ handed w = [] ∨ ∃ key, .registered key ∈ authLog cfg w) := by
    intro w hw
    refine ⟨hw.auth, hw.silent.imp (fun hs => ?_) fun h => h.2⟩
    rw [hs.sent, hs.handed, List.nil_append]
  rcases (keeps_settled cfg n).run h0 hrun with hsettled | ⟨-, hw⟩
  · cases hsettled with
    | before _ hsilent hauth =>
      rw [hauth, hsilent.sent, hsilent.handed]
      exact ⟨.waiting, .inl rfl⟩
    | after hw => exact hunderway hw
  · exact hunderway hw

/-- A frame that asks for authentication with the token `t`. -/
def authFrame : String := "\x7b\"type\":\"auth\",\"access_token\":\"t\"\x7d"

def asking : ServerConfig := .withBodies
  [(authFrame, .obj [("type", .str "auth"), ("access_token", .str "t")])]

def upgrade : IncomingRequest := { method := .get, target := "/v1/ws" }

/-- The timer runs out while the first frame comes in, and both handlers read the flag before one of
them clears it. -/
def racing : List (Executor.Action Handler Input) :=
  .start (.accept true) :: List.replicate 3 (.access 0) ++
  [.start (.timer false), .start (.firstFrame (.text authFrame)), .access 1, .access 2] ++
  List.replicate 2 (.access 1) ++ List.replicate 10 (.access 2)

/-- The connection is registered for the token of its frame, though it is shut down as well. -/
theorem racing_authenticated : ∃ x session,
    run asking 4 Connections.aliceOnline upgrade racing = some x ∧
      authLog asking x.toWorld =
        [.accepted "t" session, .registered (deviceScopeKey "a" "d")] ∧
      Authenticated asking x.toWorld (authLog asking x.toWorld) :=
  ⟨_, _, rfl, rfl, (authenticated_once asking 4 Connections.aliceOnline upgrade racing rfl).1⟩

def shutdowns (w : World) : ℕ :=
  w.log.countP fun
    | .access .shutdownTcp _ => true
    | _ => false

/-- No token was accepted. -/
def Unadmitted (l : List AuthEvent) : Prop := ∀ token session, .accepted token session ∉ l

/-- The handshake ends in at most one way: the connection is shut down, once, or admitted. -/
structure OneOutcome (w : World) : Prop where
  once : shutdowns w ≤ 1
  exclusive : shutdowns w = 0 ∨ Unadmitted (authLog cfg w)

section OneThread

variable {cfg} {n : ℕ} {w w' : World} {c : Access} {active : Bool}
  {out : ℕ → List AuthEvent → Prop}

theorem shutdowns_access (hc : c ≠ .shutdownTcp) :
    shutdowns ((executor cfg).access w c).2 = shutdowns w := by
  cases c with
  | shutdownTcp => exact absurd rfl hc
  | _ => simp [shutdowns, Executor.access, List.countP_append]

theorem shutdowns_shutdownTcp :
    shutdowns ((executor cfg).access w .shutdownTcp).2 = shutdowns w + 1 := by
  simp [shutdowns, Executor.access, List.countP_append]

theorem shutdowns_input {e : Input} (h : (executor cfg).input w e = some w') :
    shutdowns w' = shutdowns w := by
  obtain ⟨s, -, rfl⟩ := Option.map_eq_some_iff.mp h
  simp [shutdowns, List.countP_append]

theorem shutdowns_start {handler : Handler} {s : Socket} :
    shutdowns ⟨s, w.log ++ [.start handler]⟩ = shutdowns w := by
  simp [shutdowns, List.countP_append]

/-- A handshake after the accept. The flag says whether the handlers of the timer and of the first
frame are to end it, and `out` how the connection was shut down and authenticated so far. -/
structure Standing (cfg : ServerConfig) (active : Bool) (out : ℕ → List AuthEvent → Prop)
    (w : World) : Prop where
  accepting : w.state.accepting = false
  active : w.state.deferredAuthActive = active
  out : out (shutdowns w) (authLog cfg w)

abbrev Pending (cfg : ServerConfig) (active : Bool) : World → Prop :=
  Standing cfg active fun k l => k = 0 ∧ Unadmitted l

abbrev Ended (cfg : ServerConfig) : World → Prop :=
  Standing cfg false fun k l => k ≤ 1 ∧ (k = 0 ∨ Unadmitted l)

/-- Where a handshake is when no handler of it is under way. -/
inductive Decided (cfg : ServerConfig) (w : World) : Prop
  | opened (haccepting : w.state.accepting) (hactive : w.state.deferredAuthActive = false)
      (hfirst : w.state.readingFirst = false) (htimer : w.state.timer = .idle)
      (hshut : shutdowns w = 0) (hno : Unadmitted (authLog cfg w))
  | waiting (h : Pending cfg true w)
  | ended (h : Ended cfg w)

theorem Standing.congr {b : Bool} (hw : Standing cfg active out w)
    (haccepting : w'.state.accepting = w.state.accepting)
    (hactive : w'.state.deferredAuthActive = b) (hshut : shutdowns w' = shutdowns w)
    (hlog : authLog cfg w' = authLog cfg w) : Standing cfg b out w' := by
  refine ⟨haccepting.trans hw.accepting, hactive, ?_⟩
  rw [hshut, hlog]
  exact hw.out

theorem Standing.input {e : Input} (hw : Standing cfg active out w)
    (h : (executor cfg).input w e = some w') : Standing cfg active out w' := by
  obtain ⟨posted, server, hst, -, -⟩ := input_frame h
  refine hw.congr ?_ ?_ (shutdowns_input h) (authLog_input h).1 <;> rw [hst]
  exact hw.active

theorem Standing.access {b : Bool} (hw : Standing cfg active out w) (hc : plainAccess c)
    (hshut : c ≠ .shutdownTcp) (hactive : (c.exec cfg w.state).2.deferredAuthActive = b) :
    Standing cfg b out ((executor cfg).access w c).2 :=
  hw.congr (exec_plainAccess cfg hc w.state).1 hactive (shutdowns_access hshut) (authLog_access hc)

theorem Standing.start {handler : Handler} {s : Socket} (hw : Standing cfg active out w)
    (haccepting : s.accepting = w.state.accepting)
    (hactive : s.deferredAuthActive = w.state.deferredAuthActive) :
    Standing cfg active out ⟨s, w.log ++ [.start handler]⟩ :=
  hw.congr haccepting (hactive.trans hw.active) shutdowns_start authLog_start

theorem Pending.ended (hw : Pending cfg false w) : Ended cfg w :=
  { hw with out := ⟨hw.out.1.trans_le (Nat.zero_le 1), .inl hw.out.1⟩ }

theorem Decided.input {e : Input} (hw : Decided cfg w)
    (h : (executor cfg).input w e = some w') : Decided cfg w' := by
  cases hw with
  | opened ha hactive hfirst htimer hshut hno =>
    obtain ⟨posted, server, hst, -, -⟩ := input_frame h
    refine .opened (by rw [hst]; exact ha) (by rw [hst]; exact hactive)
      (by rw [hst]; exact hfirst) (by rw [hst]; exact htimer)
      ((shutdowns_input h).trans hshut) ((authLog_input h).1 ▸ hno)
  | waiting hw => exact .waiting (hw.input h)
  | ended hw => exact .ended (hw.input h)

theorem Decided.one (hw : Decided cfg w) : OneOutcome cfg w := by
  cases hw with
  | opened _ _ _ _ hshut _ => exact ⟨by rw [hshut]; exact Nat.zero_le 1, .inl hshut⟩
  | waiting hw => exact ⟨hw.out.1.trans_le (Nat.zero_le 1), .inl hw.out.1⟩
  | ended hw => exact ⟨hw.out.1, hw.out.2⟩

theorem exec_messageAccess (cfg : ServerConfig) (hc : messageAccess c) (s : Socket) :
    (c.exec cfg s).2.deferredAuthActive = s.deferredAuthActive ∧
      (c.exec cfg s).2.timer = s.timer := by
  cases c with
  | setDeferredAuthActive | waitForTimer | cancelTimer => cases hc
  | _ => exact ⟨rfl, rfl⟩

theorem Decided.access (hw : Decided cfg w) (hc : messageAccess c) :
    Decided cfg ((executor cfg).access w c).2 := by
  have hplain := plainAccess_of_messageAccess hc
  have hshut : c ≠ .shutdownTcp := by
    rintro rfl
    cases hc
  obtain ⟨hactive, htimer⟩ := exec_messageAccess cfg hc w.state
  cases hw with
  | opened ha hinactive hfirst hidle hnone hno =>
    obtain ⟨haccepting, hreading, -, -⟩ := exec_plainAccess cfg hplain w.state
    refine .opened (haccepting.trans ha) (hactive.trans hinactive) (hreading.trans hfirst)
      (htimer.trans hidle) ((shutdowns_access hshut).trans hnone) ?_
    rw [authLog_access hplain]
    exact hno
  | waiting hw => exact .waiting (hw.access hplain hshut (hactive.trans hw.active))
  | ended hw => exact .ended (hw.access hplain hshut (hactive.trans hw.active))

variable (cfg n) in
/-- The handler ends the handshake at most once. -/
abbrev Decides (p : SocketProg Unit) (w : World) : Prop :=
  Leads (executor cfg) n nothing (OneOutcome cfg) (Decided cfg) p w

theorem decides_call (hn : n ≤ 1) {f : c.Reply → SocketProg Unit} (hw : Standing cfg active out w)
    (hone : ∀ {k l}, out k l → k ≤ 1 ∧ (k = 0 ∨ Unadmitted l))
    (hf : ∀ w, Standing cfg active out w →
      Decides cfg n (f ((executor cfg).access w c).1) ((executor cfg).access w c).2) :
    Decides cfg n (.call c f) w := by
  refine leads_call hw (fun hw hmean => ?_) (fun hw => ⟨(hone hw.out).1, (hone hw.out).2⟩) hf
  obtain ⟨e, he⟩ := meanwhile_input hn hmean
  exact hw.input he

theorem decides_pending (hn : n ≤ 1) {f : c.Reply → SocketProg Unit} (hw : Pending cfg active w)
    (hf : ∀ w, Pending cfg active w →
      Decides cfg n (f ((executor cfg).access w c).1) ((executor cfg).access w c).2) :
    Decides cfg n (.call c f) w :=
  decides_call hn hw (fun h => ⟨h.1.trans_le (Nat.zero_le 1), .inl h.1⟩) hf

theorem decides_step (hn : n ≤ 1) {f : c.Reply → SocketProg Unit} (b : Bool) (hc : plainAccess c)
    (hshut : c ≠ .shutdownTcp) (hw : Pending cfg active w)
    (hb : ∀ s : Socket, s.deferredAuthActive = active →
      (c.exec cfg s).2.deferredAuthActive = b)
    (hf : ∀ s : Socket, s.deferredAuthActive = active → ∀ w, Pending cfg b w →
      Decides cfg n (f (c.exec cfg s).1) w) : Decides cfg n (.call c f) w :=
  decides_pending hn hw fun w hw =>
    hf w.state hw.active _ (hw.access hc hshut (hb w.state hw.active))

theorem decides_of_only (hn : n ≤ 1) {p : SocketProg Unit} (hp : p.Only (messageAccess ·))
    (hw : Decided cfg w) : Decides cfg n p w := by
  refine leads_of_only hp hw (fun hw hmean => ?_) (fun hw => hw.one) id fun hw hc => hw.access hc
  obtain ⟨e, he⟩ := meanwhile_input hn hmean
  exact hw.input he

theorem decides_failTcpConnection (hn : n ≤ 1) (hw : Pending cfg false w) :
    Decides cfg n failTcpConnection w := by
  refine decides_pending hn hw fun w hw => .ended ⟨hw.accepting, hw.active, ?_⟩
  rw [shutdowns_shutdownTcp, authLog_access rfl, hw.out.1]
  exact ⟨le_refl 1, .inr hw.out.2⟩

def admits : Access → Bool
  | .setDeviceId _ | .setUserId _ | .userId | .deviceId | .register _ | .read => true
  | _ => false

-- once a token was accepted, the connection is not shut down by the handshake
theorem decides_of_admits (hn : n ≤ 1) {p : SocketProg Unit} (hp : p.Only (admits ·))
    (hw : Standing cfg false (fun k _ => k = 0) w) : Decides cfg n p w := by
  refine leads_of_only hp hw (fun hw hmean => ?_)
    (fun hw => ⟨hw.out.trans_le (Nat.zero_le 1), .inl hw.out⟩)
    (fun hw => .ended { hw with out := ⟨hw.out.trans_le (Nat.zero_le 1), .inl hw.out⟩ })
    fun {w c} hw hc => ?_
  · obtain ⟨e, he⟩ := meanwhile_input hn hmean
    exact hw.input he
  · cases c with
    | setDeviceId | setUserId | userId | deviceId | register | read =>
      exact ⟨hw.accepting, hw.active, (shutdowns_access (by simp)).trans hw.out⟩
    | _ => cases hc

theorem decides_finishAuth (hn : n ≤ 1) {token : String} (hw : Pending cfg false w) :
    Decides cfg n (finishAuth token) w := by
  refine decides_step hn false rfl (by simp) hw (fun _ h => h) fun s _ w hw => ?_
  generalize (Access.exec cfg .nowSeconds s).1 = now
  refine decides_pending hn hw fun w hw => ?_
  have hshut : shutdowns ((executor cfg).access w (.validateAccessToken token now)).2 = 0 :=
    (shutdowns_access (by simp)).trans hw.out.1
  cases hres : ((executor cfg).access w (.validateAccessToken token now)).1 with
  | error e =>
    refine decides_failTcpConnection hn
      ⟨hw.accepting, hw.active, hshut, fun t session hmem => ?_⟩
    simp only [authLog, Executor.access, List.filterMap_append, List.mem_append, authEvent?,
      List.filterMap_cons, List.filterMap_nil] at hmem
    rw [show ((Access.validateAccessToken token now).exec cfg w.state).1 = .error e from hres]
      at hmem
    exact hw.out.2 t session (hmem.resolve_right (by simp))
  | ok session =>
    refine decides_of_admits hn ?_ ⟨hw.accepting, hw.active, hshut⟩
    refine ⟨rfl, fun _ => ⟨rfl, fun _ => ⟨rfl, fun _ => ⟨rfl, fun _ => ⟨rfl, fun _ => ?_⟩⟩⟩⟩⟩
    exact ⟨rfl, fun _ => trivial⟩

theorem decides_onAccept (hn : n ≤ 1) {req : IncomingRequest} {ok : Bool}
    (hw : Pending cfg false w) : Decides cfg n (onAccept req ok) w := by
  unfold onAccept
  split
  · exact .ended hw.ended
  split
  · exact decides_finishAuth hn hw
  · refine decides_step hn true rfl (by simp) hw (fun _ _ => rfl) fun _ _ w hw => ?_
    refine decides_step hn true rfl (by simp) hw (fun _ h => h) fun _ _ w hw => ?_
    refine decides_pending hn hw fun w hw => .waiting (hw.congr rfl hw.active ?_ ?_)
    · exact shutdowns_access (by simp)
    · simp [authLog, Executor.access, List.filterMap_append, authEvent?]

/-- After the handshake has ended, the handlers of the timer and of the first frame do nothing. -/
theorem decides_of_ended (hn : n ≤ 1) {f : Bool → SocketProg Unit} (hf : f false = .ret ())
    (hw : Ended cfg w) : Decides cfg n (.call .deferredAuthActive f) w := by
  refine decides_call hn hw id fun w hw => ?_
  rw [show ((executor cfg).access w .deferredAuthActive).1 = false from hw.active, hf]
  exact .ended (hw.access rfl (by simp) hw.active)

theorem decides_onTimer (hn : n ≤ 1) {aborted : Bool} (hw : Pending cfg true w) :
    Decides cfg n (onTimer aborted) w := by
  unfold onTimer
  split
  · exact .waiting hw
  refine decides_step hn true rfl (by simp) hw (fun _ h => h) fun s hs w hw => ?_
  rw [show (Access.exec cfg .deferredAuthActive s).1 = true from hs]
  refine decides_step hn false rfl (by simp) hw (fun _ _ => rfl) fun _ _ w hw => ?_
  exact decides_failTcpConnection hn hw

theorem decides_onFirstFrame (hn : n ≤ 1) {frame : WsFrame} (hw : Pending cfg true w) :
    Decides cfg n (onFirstFrame cfg frame) w := by
  refine decides_step hn true rfl (by simp) hw (fun _ h => h) fun s hs w hw => ?_
  rw [show (Access.exec cfg .deferredAuthActive s).1 = true from hs]
  refine decides_step hn false rfl (by simp) hw (fun _ _ => rfl) fun _ _ w hw => ?_
  refine decides_step hn false rfl (by simp) hw (fun _ h => h) fun _ _ w hw => ?_
  cases frame.accessToken cfg with
  | some token => exact decides_finishAuth hn hw
  | none => exact decides_failTcpConnection hn hw

theorem Decided.start {handler : Handler} {s : Socket} (hw : Decided cfg w)
    (haccepting : s.accepting = w.state.accepting)
    (hactive : s.deferredAuthActive = w.state.deferredAuthActive)
    (hfirst : s.readingFirst = w.state.readingFirst) (htimer : s.timer = w.state.timer) :
    Decided cfg ⟨s, w.log ++ [.start handler]⟩ := by
  cases hw with
  | opened ha hinactive hr hidle hshut hno =>
    exact .opened (haccepting.trans ha) (hactive.trans hinactive) (hfirst.trans hr)
      (htimer.trans hidle) (shutdowns_start.trans hshut) (authLog_start.symm ▸ hno)
  | waiting hw => exact .waiting (hw.start haccepting hactive)
  | ended hw => exact .ended (hw.start haccepting hactive)

theorem keeps_decided (cfg : ServerConfig) (hn : n ≤ 1) :
    Keeps (executor cfg) n nothing (OneOutcome cfg) (Decided cfg) := by
  refine keeps_of_le_one hn (fun hw h => hw.input h) fun {w} _ _ _ hw hs => ?_
  obtain ⟨s, hready, rfl⟩ := ready_of_start hs
  cases hready with
  | accept ok haccepting =>
    cases hw with
    | opened _ hinactive _ _ hshut hno =>
      exact decides_onAccept hn
        ⟨rfl, hinactive, shutdowns_start.trans hshut, authLog_start.symm ▸ hno⟩
    | waiting hw => simp [hw.accepting] at haccepting
    | ended hw => simp [hw.accepting] at haccepting
  | timer aborted hout =>
    cases hw with
    | opened _ _ _ hidle _ _ => simp [hidle] at hout
    | waiting hw => exact decides_onTimer hn (hw.start rfl rfl)
    | ended hw =>
      unfold onTimer
      split
      · exact .ended (hw.start rfl rfl)
      · exact decides_of_ended hn rfl (hw.start rfl rfl)
  | firstFrame frame hfirst =>
    cases hw with
    | opened _ _ hno _ _ _ => simp [hno] at hfirst
    | waiting hw => exact decides_onFirstFrame hn (hw.start rfl rfl)
    | ended hw => exact decides_of_ended hn rfl (hw.start rfl rfl)
  | posted msg => exact decides_of_only hn (only_onPosted msg) (hw.start rfl rfl rfl rfl)
  | written ok => exact decides_of_only hn (only_onWritten ok) (hw.start rfl rfl rfl rfl)
  | read ok => exact decides_of_only hn (only_onRead ok) (hw.start rfl rfl rfl rfl)

end OneThread

theorem exists_racing : ∃ x, run asking 2 Connections.aliceOnline upgrade racing = some x ∧
    ¬ OneOutcome asking x.toWorld := by
  refine ⟨_, rfl, fun h => ?_⟩
  refine h.exclusive.elim (by decide) fun hno => ?_
  exact hno "t" _ (List.mem_cons_self)

/-- In all runs each handshake ends in at most one way, exactly if the handlers have at most one
thread. -/
theorem one_outcome_iff (n : ℕ) :
    (∀ cfg server req acts x, run cfg n server req acts = some x → OneOutcome cfg x.toWorld) ↔
      n ≤ 1 := by
  constructor
  · intro h
    by_contra hn
    obtain ⟨x, hrun, hnot⟩ := exists_racing
    exact hnot (h _ _ _ _ x (run_mono (by omega) hrun))
  · intro hn cfg server req acts x hrun
    have h0 : Decided cfg ⟨{ server, req }, []⟩ :=
      .opened rfl rfl rfl rfl rfl fun _ _ => List.not_mem_nil
    rcases (keeps_decided cfg hn).run h0 hrun with hdecided | ⟨-, hone⟩
    · exact hdecided.one
    · exact hone

end VoxServer.Socket
