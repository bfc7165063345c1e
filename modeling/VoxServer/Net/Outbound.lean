import VoxServer.Net.Socket
import VoxServer.Net.WebSocketSession

/-! # What a connection writes

A message for a connection waits first as a handler of the executor and then in the outbound
queue, from which one write at a time is started. With one thread for the handlers, no message
is overtaken or written twice, and none is lost except by a full queue or a failed write, which
close the connection. With two threads, a handler can overtake the one before it.
-/

namespace VoxServer.Socket

open Interleaving Executor Http

/-- The messages that `PostSend` was called with. -/
def sent (w : World) : List String :=
  w.log.filterMap fun
    | .input (.postSend msg) => some msg
    | _ => none

/-- The messages that `async_write` was called with. -/
def handed (w : World) : List String :=
  w.log.filterMap fun
    | .access (.write chunk) _ => some chunk
    | _ => none

variable (cfg : ServerConfig)

/-- Whatever has not been handed over is in the outbound queue or posted, in the order in which it
was sent. The queue keeps its bound, and at most one write is outstanding. -/
structure Ordered (w : World) : Prop where
  order : (handed w ++ w.state.outbound ++ w.state.posted).Sublist (sent w)
  bounded : 0 < cfg.maxWsOutboundQueue → w.state.outbound.length ≤ cfg.maxWsOutboundQueue
  writes : w.state.writes = if w.state.writeInProgress then 1 else 0

/-- In addition, as long as the connection is not closed, nothing is lost, and no message waits
unless a write is outstanding. -/
structure Carried (w : World) : Prop extends Ordered cfg w where
  all : w.state.closed = false → handed w ++ w.state.outbound ++ w.state.posted = sent w
  writing : w.state.closed = false → w.state.outbound ≠ [] → 0 < w.state.writes

section Steps

variable {cfg} {w w' : World} {c : Access}

theorem sent_access : sent ((executor cfg).access w c).2 = sent w := by
  simp [sent, Executor.access, List.filterMap_append]

theorem handed_access (hc : ∀ chunk, c ≠ .write chunk) :
    handed ((executor cfg).access w c).2 = handed w := by
  simp only [handed, Executor.access, List.filterMap_append, List.filterMap_cons,
    List.filterMap_nil]
  split
  · exact List.append_nil _
  · rename_i hsome
    split at hsome
    · rename_i chunk _ he
      cases he
      exact absurd rfl (hc chunk)
    · cases hsome

theorem handed_write (chunk : String) :
    handed ((executor cfg).access w (.write chunk)).2 = handed w ++ [chunk] := by
  simp [handed, Executor.access, List.filterMap_append]

theorem input_cases {e : Input} (h : (executor cfg).input w e = some w') :
    (∃ msg, w'.state = { w.state with posted := w.state.posted ++ [msg] } ∧
      sent w' = sent w ++ [msg] ∧ handed w' = handed w) ∨
    ∃ server, w'.state = { w.state with server } ∧ sent w' = sent w ∧ handed w' = handed w := by
  obtain ⟨s, hs, rfl⟩ := Option.map_eq_some_iff.mp h
  cases e with
  | postSend msg =>
    simp only [executor, env] at hs
    split at hs
    · cases hs
      exact .inl ⟨msg, rfl, by simp [sent, List.filterMap_append],
        by simp [handed, List.filterMap_append]⟩
    · cases hs
  | other server =>
    cases hs
    exact .inr ⟨server, rfl, by simp [sent, List.filterMap_append],
      by simp [handed, List.filterMap_append]⟩

end Steps

section OneThread

variable {cfg} {n : ℕ} {w w' : World} {l h out : List String} {wip : Bool} {writes : ℕ}

/-- No handler makes any access while another one is under way. -/
abbrev nothing : Socket → Access → Prop := fun _ _ => False

/-- In the middle of a handler: the messages of `l` and those posted stand in line, `h` of them
have been handed over, and the members of the connection have the given values. -/
structure Mid (l h out : List String) (wip : Bool) (writes : ℕ) (w : World) : Prop where
  order : (l ++ w.state.posted).Sublist (sent w)
  all : w.state.closed = false → l ++ w.state.posted = sent w
  handed : handed w = h
  outbound : w.state.outbound = out
  writeInProgress : w.state.writeInProgress = wip
  writes : w.state.writes = writes

theorem Mid.input {e : Input} (hw : Mid l h out wip writes w)
    (hin : (executor cfg).input w e = some w') : Mid l h out wip writes w' := by
  rcases input_cases hin with ⟨msg, hst, hsent, hhanded⟩ | ⟨server, hst, hsent, hhanded⟩
  · refine ⟨?_, fun hc => ?_, hhanded.trans hw.handed, ?_, ?_, ?_⟩ <;> rw [hst]
    · rw [hsent, ← List.append_assoc]
      exact hw.order.append_right [msg]
    · rw [hst] at hc
      rw [hsent, ← List.append_assoc, hw.all hc]
    · exact hw.outbound
    · exact hw.writeInProgress
    · exact hw.writes
  · refine ⟨?_, fun hc => ?_, hhanded.trans hw.handed, ?_, ?_, ?_⟩ <;> rw [hst]
    · rw [hsent]
      exact hw.order
    · rw [hst] at hc
      rw [hsent]
      exact hw.all hc
    · exact hw.outbound
    · exact hw.writeInProgress
    · exact hw.writes

theorem meanwhile_input (hn : n ≤ 1) (h : Meanwhile (executor cfg) n nothing w w') :
    ∃ e, (executor cfg).input w e = some w' := by
  cases h with
  | input h => exact ⟨_, h⟩
  | start hlt => exact absurd hlt (by omega)
  | access _ hc => exact hc.elim

theorem Mid.access {c : Access} {out' : List String} {wip' : Bool}
    (hw : Mid l h out wip writes w) (hc : ∀ chunk, c ≠ .write chunk)
    (hexec : (c.exec cfg w.state).2 = { w.state with outbound := out', writeInProgress := wip' }) :
    Mid l h out' wip' writes ((executor cfg).access w c).2 := by
  have hst : ((executor cfg).access w c).2.state =
    { w.state with outbound := out', writeInProgress := wip' } := hexec
  refine ⟨?_, ?_, (handed_access hc).trans hw.handed, ?_, ?_, ?_⟩
  · rw [sent_access, hst]
    exact hw.order
  · rw [sent_access, hst]
    exact hw.all
  · rw [hst]
  · rw [hst]
  · rw [hst]
    exact hw.writes

/-- The messages handed over are in order. -/
def InOrder (w : World) : Prop := (handed w).Sublist (sent w)

variable (cfg n) in
/-- The handler keeps the messages in order, and ends with all of them carried. -/
abbrev Delivers (p : SocketProg Unit) (w : World) : Prop :=
  Leads (executor cfg) n nothing InOrder (Carried cfg) p w

theorem delivers_call (hn : n ≤ 1) {c : Access} {f : c.Reply → SocketProg Unit}
    (hw : Mid l h out wip writes w) (hl : h <+: l)
    (hf : ∀ w, Mid l h out wip writes w →
      Delivers cfg n (f ((executor cfg).access w c).1) ((executor cfg).access w c).2) :
    Delivers cfg n (.call c f) w := by
  refine leads_call hw (fun hw hmean => ?_) (fun {w} hw => ?_) hf
  · obtain ⟨e, he⟩ := meanwhile_input hn hmean
    exact hw.input he
  · rw [InOrder, hw.handed]
    exact (hl.sublist.trans (List.sublist_append_left _ _)).trans hw.order

theorem delivers_step (out' : List String) (wip' : Bool) (hn : n ≤ 1) {c : Access}
    {f : c.Reply → SocketProg Unit} (hw : Mid l h out wip writes w) (hl : h <+: l)
    (hc : ∀ chunk, c ≠ .write chunk)
    (hexec : ∀ s : Socket, s.outbound = out → s.writeInProgress = wip →
      (c.exec cfg s).2 = { s with outbound := out', writeInProgress := wip' })
    (hf : ∀ s : Socket, s.outbound = out → s.writeInProgress = wip → ∀ w,
      Mid l h out' wip' writes w → Delivers cfg n (f (c.exec cfg s).1) w) :
    Delivers cfg n (.call c f) w :=
  delivers_call hn hw hl fun w hw => hf w.state hw.outbound hw.writeInProgress _
    (hw.access hc (hexec w.state hw.outbound hw.writeInProgress))

theorem Mid.ordered (hw : Mid l h out wip writes w) (hl : (h ++ out).Sublist l)
    (hbounded : 0 < cfg.maxWsOutboundQueue → out.length ≤ cfg.maxWsOutboundQueue)
    (hwrites : writes = if wip then 1 else 0) : Ordered cfg w := by
  obtain ⟨horder, -, rfl, rfl, rfl, rfl⟩ := hw
  exact ⟨(hl.append_right _).trans horder, hbounded, hwrites⟩

theorem Mid.carried (hw : Mid (h ++ out) h out wip writes w)
    (hbounded : 0 < cfg.maxWsOutboundQueue → out.length ≤ cfg.maxWsOutboundQueue)
    (hwrites : writes = if wip then 1 else 0) (hwait : wip = false → out = []) :
    Carried cfg w := by
  refine ⟨hw.ordered (List.Sublist.refl _) hbounded hwrites, ?_, fun _ hne => ?_⟩
  · rw [hw.handed, hw.outbound]
    exact hw.all
  · rw [hw.outbound] at hne
    rw [hw.writes, hwrites]
    cases wip with
    | true => simp
    | false => exact absurd (hwait rfl) hne

theorem delivers_pumpOutbound (hn : n ≤ 1) (hw : Mid (h ++ out) h out wip writes w)
    (hbounded : 0 < cfg.maxWsOutboundQueue → out.length ≤ cfg.maxWsOutboundQueue)
    (hwrites : writes = if wip then 1 else 0) : Delivers cfg n pumpOutbound w := by
  have hl : h <+: h ++ out := List.prefix_append _ _
  refine delivers_step out wip hn hw hl (by simp) (by rintro s rfl rfl; rfl)
    fun s _ hwip w hw => ?_
  change Delivers cfg n (if s.writeInProgress then _ else _) w
  rw [hwip]
  cases wip with
  | true => exact hw.carried hbounded hwrites (by simp)
  | false =>
    refine delivers_step out false hn hw hl (by simp) (by rintro s rfl h; rw [← h]; rfl)
      fun s hout _ w hw => ?_
    change Delivers cfg n (if s.outbound.isEmpty then _ else _) w
    rw [hout]
    cases out with
    | nil => exact hw.carried hbounded hwrites fun _ => rfl
    | cons chunk rest =>
      refine delivers_step (chunk :: rest) true hn hw hl (by simp)
        (by intro s hout _; rw [← hout]; rfl) fun s _ _ w hw => ?_
      refine delivers_step ("" :: rest) true hn hw hl (by simp)
        (by intro s hout hwip; rw [← hwip]; simp [Access.exec, hout]) fun s hout _ w hw => ?_
      have hfront : (Access.exec cfg .moveFront s).1 = chunk := by simp [Access.exec, hout]
      rw [hfront]
      refine delivers_step rest true hn hw hl (by simp)
        (by intro s hout hwip; rw [← hwip]; simp [Access.exec, hout]) fun s _ _ w hw => ?_
      refine delivers_call hn hw hl fun w hw => ?_
      have hwritten : Mid (h ++ [chunk] ++ rest) (h ++ [chunk]) rest true 1
          ((executor cfg).access w (.write chunk)).2 := by
        refine ⟨?_, fun hopen => ?_, ?_, hw.outbound, hw.writeInProgress, ?_⟩
        · rw [sent_access, List.append_assoc h]
          exact hw.order
        · rw [sent_access, List.append_assoc h]
          exact hw.all hopen
        · rw [handed_write, hw.handed]
        · exact congrArg (· + 1) (hw.writes.trans hwrites)
      exact hwritten.carried (fun hmax => Nat.le_of_succ_le (hbounded hmax)) rfl (by simp)

theorem Ordered.input {e : Input} (hw : Ordered cfg w)
    (hin : (executor cfg).input w e = some w') : Ordered cfg w' := by
  rcases input_cases hin with ⟨msg, hst, hsent, hhanded⟩ | ⟨server, hst, hsent, hhanded⟩
  · refine ⟨?_, ?_, ?_⟩ <;> rw [hst]
    · rw [hsent, hhanded, ← List.append_assoc]
      exact hw.order.append_right [msg]
    · exact hw.bounded
    · exact hw.writes
  · refine ⟨?_, ?_, ?_⟩ <;> rw [hst]
    · rw [hsent, hhanded]
      exact hw.order
    · exact hw.bounded
    · exact hw.writes

theorem Ordered.inOrder (hw : Ordered cfg w) : InOrder w := by
  refine List.Sublist.trans ?_ hw.order
  rw [List.append_assoc]
  exact List.sublist_append_left _ _

/-- Whether an access leaves the messages where they are. -/
def leavesMessages : Access → Bool
  | .setWriteInProgress _ | .pushBack _ | .moveFront | .popFront | .write _ => false
  | _ => true

variable (cfg) in
theorem exec_leavesMessages {c : Access} (hc : leavesMessages c) (s : Socket) :
    (c.exec cfg s).2.outbound = s.outbound ∧ (c.exec cfg s).2.posted = s.posted ∧
      (c.exec cfg s).2.writeInProgress = s.writeInProgress ∧
        (c.exec cfg s).2.writes = s.writes ∧
          ((c.exec cfg s).2.closed = false → s.closed = false) := by
  cases c with
  | setWriteInProgress | pushBack | moveFront | popFront | write => cases hc
  | close => exact ⟨rfl, rfl, rfl, rfl, by simp [Access.exec]⟩
  | _ => exact ⟨rfl, rfl, rfl, rfl, id⟩

theorem handed_leavesMessages {c : Access} (hc : leavesMessages c) :
    handed ((executor cfg).access w c).2 = handed w :=
  handed_access fun chunk he => by
    subst he
    cases hc

theorem Ordered.access {c : Access} (hc : leavesMessages c) (hw : Ordered cfg w) :
    Ordered cfg ((executor cfg).access w c).2 := by
  obtain ⟨hout, hposted, hwip, hwrites, -⟩ := exec_leavesMessages cfg hc w.state
  refine ⟨?_, ?_, ?_⟩
  · rw [handed_leavesMessages hc, sent_access]
    change (handed w ++ (c.exec cfg w.state).2.outbound ++ (c.exec cfg w.state).2.posted).Sublist _
    rw [hout, hposted]
    exact hw.order
  · exact hout ▸ hw.bounded
  · change (c.exec cfg w.state).2.writes = if (c.exec cfg w.state).2.writeInProgress then 1 else 0
    rw [hwip, hwrites]
    exact hw.writes

theorem Carried.access {c : Access} (hc : leavesMessages c) (hw : Carried cfg w) :
    Carried cfg ((executor cfg).access w c).2 := by
  obtain ⟨hout, hposted, -, hwrites, hclosed⟩ := exec_leavesMessages cfg hc w.state
  refine ⟨hw.toOrdered.access hc, fun hopen => ?_, fun hopen hne => ?_⟩
  · rw [handed_leavesMessages hc, sent_access]
    change handed w ++ (c.exec cfg w.state).2.outbound ++ (c.exec cfg w.state).2.posted = _
    rw [hout, hposted]
    exact hw.all (hclosed hopen)
  · exact hwrites ▸ hw.writing (hclosed hopen) (hout ▸ hne)

theorem Carried.input {e : Input} (hw : Carried cfg w)
    (hin : (executor cfg).input w e = some w') : Carried cfg w' := by
  refine ⟨hw.toOrdered.input hin, ?_, ?_⟩
  all_goals
    rcases input_cases hin with ⟨msg, hst, hsent, hhanded⟩ | ⟨server, hst, hsent, hhanded⟩
  · intro hopen
    rw [hst] at hopen ⊢
    rw [hsent, hhanded, ← List.append_assoc, hw.all hopen]
  · intro hopen
    rw [hst] at hopen ⊢
    rw [hsent, hhanded, hw.all hopen]
  · rw [hst]
    exact hw.writing
  · rw [hst]
    exact hw.writing

theorem delivers_of_only (hn : n ≤ 1) {p : SocketProg Unit} (hp : p.Only (leavesMessages ·))
    (hw : Carried cfg w) : Delivers cfg n p w := by
  refine leads_of_only hp hw (fun hw hmean => ?_) (fun hw => hw.inOrder) id
    fun hw hc => hw.access hc
  obtain ⟨e, he⟩ := meanwhile_input hn hmean
  exact hw.input he

theorem delivers_shutdown (hn : n ≤ 1) (hw : Ordered cfg w) : Delivers cfg n shutdown w := by
  have hcall : ∀ {c : Access} {f : c.Reply → SocketProg Unit} {w : World}, Ordered cfg w →
      leavesMessages c → (∀ r w, Ordered cfg w → Delivers cfg n (f r) w) →
        Delivers cfg n (.call c f) w := by
    intro c f w hw hc hf
    refine leads_call hw (fun hw hmean => ?_) (fun hw => hw.inOrder) fun w hw => ?_
    · obtain ⟨e, he⟩ := meanwhile_input hn hmean
      exact hw.input he
    · exact hf _ _ (hw.access hc)
  have hclose : ∀ w, Ordered cfg w → Delivers cfg n (Socket.access .close) w := by
    intro w hw
    refine leads_call hw (fun hw hmean => ?_) (fun hw => hw.inOrder) fun w hw => ?_
    · obtain ⟨e, he⟩ := meanwhile_input hn hmean
      exact hw.input he
    · have hclosed : ((executor cfg).access w .close).2.state.closed := rfl
      exact ⟨hw.access rfl, fun h => by simp [hclosed] at h, fun h => by simp [hclosed] at h⟩
  refine hcall hw rfl fun deviceId w hw => ?_
  change Delivers cfg n (if deviceId ≠ "" then _ else _) w
  split
  · refine hcall hw rfl fun userId w hw => hcall hw rfl fun deviceId w hw => ?_
    exact hcall hw rfl fun _ w hw => hcall hw rfl fun _ w hw => hcall hw rfl fun _ => hclose
  · exact hclose w hw

theorem delivers_onPosted (hn : n ≤ 1) {msg : String}
    (hw : Mid (h ++ out ++ [msg]) h out wip writes w)
    (hbounded : 0 < cfg.maxWsOutboundQueue → out.length ≤ cfg.maxWsOutboundQueue)
    (hwrites : writes = if wip then 1 else 0) : Delivers cfg n (onPosted cfg msg) w := by
  have hl : h <+: h ++ out ++ [msg] := ⟨out ++ [msg], by simp⟩
  have hpush : ∀ {w : World}, Mid (h ++ out ++ [msg]) h out wip writes w →
      (0 < cfg.maxWsOutboundQueue → out.length < cfg.maxWsOutboundQueue) →
      Delivers cfg n (.call (.pushBack msg) fun _ => pumpOutbound) w := by
    intro w hw hroom
    refine delivers_step (out ++ [msg]) wip hn hw hl (by simp) (by rintro s rfl rfl; rfl)
      fun _ _ _ w hw => ?_
    rw [List.append_assoc] at hw
    refine delivers_pumpOutbound hn hw (fun hmax => ?_) hwrites
    rw [List.length_append]
    exact hroom hmax
  rw [onPosted_eq]
  split
  · refine delivers_step out wip hn hw hl (by simp) (by rintro s rfl rfl; rfl)
      fun s hout _ w hw => ?_
    change Delivers cfg n (if s.outbound.length ≥ cfg.maxWsOutboundQueue then _ else _) w
    rw [hout]
    split
    · -- the message is lost
      exact delivers_shutdown hn (hw.ordered (List.sublist_append_left _ _) hbounded hwrites)
    · rename_i hroom
      exact hpush hw fun _ => not_le.mp hroom
  · rename_i hmax
    exact hpush hw fun h => absurd h hmax

theorem delivers_onWritten (hn : n ≤ 1) {ok : Bool} (hw : Mid (h ++ out) h out wip 0 w)
    (hbounded : 0 < cfg.maxWsOutboundQueue → out.length ≤ cfg.maxWsOutboundQueue) :
    Delivers cfg n (onWritten ok) w := by
  refine delivers_step out false hn hw (List.prefix_append _ _) (by simp)
    (by rintro s rfl _; rfl) fun _ _ _ w hw => ?_
  cases ok with
  | true => exact delivers_pumpOutbound hn hw hbounded rfl
  | false => exact delivers_shutdown hn (hw.ordered (List.Sublist.refl _) hbounded rfl)

theorem only_finishAuth (token : String) : (finishAuth token).Only (leavesMessages ·) := by
  refine ⟨rfl, fun now => ⟨rfl, fun r => ?_⟩⟩
  cases r with
  | error e => exact ⟨rfl, fun _ => trivial⟩
  | ok session =>
    refine ⟨rfl, fun _ => ⟨rfl, fun _ => ⟨rfl, fun u => ⟨rfl, fun d => ⟨rfl, fun _ => ?_⟩⟩⟩⟩⟩
    exact ⟨rfl, fun _ => trivial⟩

theorem only_onAccept (req : IncomingRequest) (ok : Bool) :
    (onAccept req ok).Only (leavesMessages ·) := by
  unfold onAccept
  split
  · trivial
  · split
    · exact only_finishAuth _
    · exact ⟨rfl, fun _ => ⟨rfl, fun _ => ⟨rfl, fun _ => trivial⟩⟩⟩

theorem only_onTimer (aborted : Bool) : (onTimer aborted).Only (leavesMessages ·) := by
  unfold onTimer
  split
  · trivial
  · refine ⟨rfl, fun active => ?_⟩
    cases active with
    | true => exact ⟨rfl, fun _ => ⟨rfl, fun _ => trivial⟩⟩
    | false => trivial

theorem only_onFirstFrame (frame : WsFrame) :
    (onFirstFrame cfg frame).Only (leavesMessages ·) := by
  refine ⟨rfl, fun active => ?_⟩
  cases active with
  | true =>
    refine ⟨rfl, fun _ => ⟨rfl, fun _ => ?_⟩⟩
    cases frame.accessToken cfg with
    | some token => exact only_finishAuth token
    | none => exact ⟨rfl, fun _ => trivial⟩
  | false => trivial

section Start

variable {handler : Handler} {s : Socket}

theorem sent_start : sent ⟨s, w.log ++ [.start handler]⟩ = sent w := by
  simp [sent, List.filterMap_append]

theorem handed_start : handed ⟨s, w.log ++ [.start handler]⟩ = handed w := by
  simp [handed, List.filterMap_append]

theorem Carried.start (hw : Carried cfg w) (hout : s.outbound = w.state.outbound)
    (hposted : s.posted = w.state.posted) (hwip : s.writeInProgress = w.state.writeInProgress)
    (hwrites : s.writes = w.state.writes) (hclosed : s.closed = w.state.closed) :
    Carried cfg ⟨s, w.log ++ [.start handler]⟩ := by
  refine ⟨⟨?_, ?_, ?_⟩, fun hopen => ?_, fun hopen => ?_⟩
  · rw [sent_start, handed_start, hout, hposted]
    exact hw.order
  · rw [hout]
    exact hw.bounded
  · rw [hwrites, hwip]
    exact hw.writes
  · rw [sent_start, handed_start, hout, hposted]
    exact hw.all (hclosed ▸ hopen)
  · rw [hout, hwrites]
    exact hw.writing (hclosed ▸ hopen)

end Start

theorem keeps_carried (cfg : ServerConfig) (hn : n ≤ 1) :
    Keeps (executor cfg) n nothing InOrder (Carried cfg) := by
  refine keeps_of_le_one hn (fun hw h => hw.input h) fun {w} _ _ _ hw hs => ?_
  obtain ⟨s, hready, rfl⟩ := ready_of_start hs
  cases hready with
  | accept => exact delivers_of_only hn (only_onAccept _ _) (hw.start rfl rfl rfl rfl rfl)
  | timer => exact delivers_of_only hn (only_onTimer _) (hw.start rfl rfl rfl rfl rfl)
  | firstFrame => exact delivers_of_only hn (only_onFirstFrame _) (hw.start rfl rfl rfl rfl rfl)
  | posted msg posted hposted =>
    have horder := hw.order
    have hall := hw.all
    rw [hposted, ← List.singleton_append, ← List.append_assoc] at horder hall
    exact delivers_onPosted hn ⟨sent_start.symm ▸ horder, sent_start.symm ▸ hall, handed_start,
      rfl, rfl, rfl⟩ hw.bounded hw.writes
  | written ok hpos =>
    have hnone : w.state.writes - 1 = 0 := by
      have hwrites := hw.writes
      split at hwrites <;> omega
    exact delivers_onWritten hn ⟨sent_start.symm ▸ hw.order, sent_start.symm ▸ hw.all,
      handed_start, rfl, rfl, hnone⟩ hw.bounded
  | read ok =>
    have hcarried : Carried cfg
        ⟨{ w.state with reading := false }, w.log ++ [.start (.read ok)]⟩ :=
      hw.start rfl rfl rfl rfl rfl
    cases ok with
    | true => exact delivers_of_only hn ⟨rfl, fun _ => trivial⟩ hcarried
    | false => exact delivers_shutdown hn hcarried.toOrdered

end OneThread

instance (w : World) : Decidable (InOrder w) := inferInstanceAs (Decidable (List.Sublist _ _))

/-- A request to upgrade with the token `t`. -/
def upgradeWithToken : IncomingRequest :=
  { method := .get, target := "/v1/ws", authorization := some "Bearer t" }

/-- The device is pushed two messages. Another thread takes the handler of the second one before
the thread of the first one comes to run it. -/
def overtaking : List (Executor.Action Handler Input) :=
  .start (.accept true) :: List.replicate 8 (.access 0) ++
  [.input (.postSend "x"), .input (.postSend "y"), .start .posted, .start .posted] ++
  List.replicate 8 (.access 2) ++ List.replicate 3 (.access 1) ++
  .start (.written true) :: List.replicate 7 (.access 3)

theorem exists_overtaking : ∃ x,
    run default 2 Connections.aliceOnline upgradeWithToken overtaking = some x ∧
      ¬ InOrder x.toWorld :=
  ⟨_, rfl, by decide⟩

/-- In all runs messages are handed over in the order in which they were sent, and between handlers
none is lost, exactly if the handlers have at most one thread. -/
theorem outbound_in_order (n : ℕ) :
    (∀ cfg server req acts x, run cfg n server req acts = some x →
      InOrder x.toWorld ∧ (x.Idle → Carried cfg x.toWorld)) ↔ n ≤ 1 := by
  constructor
  · intro h
    by_contra hn
    obtain ⟨x, hrun, hnot⟩ := exists_overtaking
    exact hnot (h _ _ _ _ x (run_mono (by omega) hrun)).1
  · intro hn cfg server req acts x hrun
    have h0 : Carried cfg ⟨{ server, req }, []⟩ :=
      ⟨⟨List.Sublist.refl _, fun _ => Nat.zero_le _, rfl⟩, fun _ => rfl,
        fun _ hne => absurd rfl hne⟩
    rcases (keeps_carried cfg hn).run h0 hrun with hcarried | ⟨hbusy, horder⟩
    · exact ⟨hcarried.inOrder, fun _ => hcarried⟩
    · exact ⟨horder, fun hidle => absurd hidle hbusy⟩

end VoxServer.Socket
