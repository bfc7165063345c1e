import Mathlib.Algebra.Order.Ring.Int
import Mathlib.Logic.Function.Basic
import VoxServer.Common.Config
import VoxServer.Common.Types
import VoxServer.Window.Counter

/-! # The rate limiter

Requests of one key are counted in windows that start with a request. The limiter keeps
one window for each key it has seen, and a key that it has not seen has an empty one. The
clock counts nanoseconds and the window is given in seconds, so a long window overflows.
-/

namespace VoxServer

open Interleaving

/-- The ticks of the steady clock in a second. -/
def ticksPerSecond : ℤ := 10 ^ 9

/-- A time of the steady clock, which counts its ticks from the start of the machine. -/
def IsTick (t : ℤ) : Prop := 0 ≤ t ∧ t < 2 ^ 63

instance (t : ℤ) : Decidable (IsTick t) := inferInstanceAs (Decidable (_ ∧ _))

/-- Times are ticks of the steady clock. -/
structure WindowState where
  windowStart : ℤ := 0
  count : ℕ := 0
  deriving DecidableEq, Repr

/-- The window is given in seconds. -/
structure AuthRateLimiter where
  maxEvents : ℕ
  window : ℤ
  byKey : String → WindowState := fun _ => {}

namespace AuthRateLimiter

/-- `by_key_[client_key]` gets the state. -/
def setWindow (clientKey : String) (w : WindowState) (l : AuthRateLimiter) : AuthRateLimiter :=
  { l with byKey := Function.update l.byKey clientKey w }

/-- The comparison converts the window to ticks, in signed numbers with 64 bits. -/
def allow (clientKey : String) (now : ℤ) (l : AuthRateLimiter) : Bool × AuthRateLimiter :=
  let w := l.byKey clientKey
  if w.count = 0 then
    (true, l.setWindow clientKey ⟨now, 1⟩)
  else if toInt64 (now - w.windowStart) ≥ toInt64 (l.window * ticksPerSecond) then
    (true, l.setWindow clientKey ⟨now, 1⟩)
  else if w.count ≥ l.maxEvents then
    (false, l)
  else
    (true, l.setWindow clientKey { w with count := w.count + 1 })

/-- A call of `Allow` for the key at the time. -/
structure Request where
  key : String
  time : ℤ
  deriving DecidableEq, Repr

structure Answer extends Request where
  allowed : Bool
  deriving DecidableEq, Repr

def answer (p : List Answer × AuthRateLimiter) (r : Request) : List Answer × AuthRateLimiter :=
  (p.1 ++ [{ r with allowed := (allow r.key r.time p.2).1 }], (allow r.key r.time p.2).2)

def answerAll (l : AuthRateLimiter) (rs : List Request) : List Answer × AuthRateLimiter :=
  rs.foldl answer ([], l)

@[simp] theorem answerAll_snoc (l : AuthRateLimiter) (rs : List Request) (r : Request) :
    answerAll l (rs ++ [r]) = answer (answerAll l rs) r := by
  simp [answerAll]

def counter (l : AuthRateLimiter) (key : String) : Window.Counter ℤ :=
  ⟨(l.byKey key).windowStart, (l.byKey key).count⟩

theorem allow_limits (clientKey : String) (now : ℤ) (l : AuthRateLimiter) :
    (allow clientKey now l).2.maxEvents = l.maxEvents ∧
      (allow clientKey now l).2.window = l.window := by
  unfold allow
  dsimp only
  repeat' split
  all_goals exact ⟨rfl, rfl⟩

theorem windowStart_allow (clientKey key : String) (now : ℤ) (l : AuthRateLimiter) :
    ((allow clientKey now l).2.byKey key).windowStart = (l.byKey key).windowStart ∨
      ((allow clientKey now l).2.byKey key).windowStart = now := by
  unfold allow setWindow
  by_cases hkey : key = clientKey
  · subst hkey
    dsimp only
    repeat' split
    all_goals simp
  · dsimp only
    repeat' split
    all_goals simp [Function.update_of_ne hkey]

theorem allow_self (key : String) (now : ℤ) (l : AuthRateLimiter)
    (hfit : InInt64 (l.window * ticksPerSecond)) (hnow : IsTick now)
    (hstart : IsTick (l.byKey key).windowStart) :
    ((allow key now l).1, (allow key now l).2.counter key) =
      Window.attempt l.maxEvents (l.window * ticksPerSecond) now (l.counter key) := by
  have hsince : InInt64 (now - (l.byKey key).windowStart) := by
    unfold IsTick at hnow hstart
    unfold InInt64
    omega
  have hend : toInt64 (now - (l.byKey key).windowStart) ≥ toInt64 (l.window * ticksPerSecond) ↔
      (l.byKey key).windowStart + l.window * ticksPerSecond ≤ now := by
    rw [toInt64_eq_self.mpr hsince, toInt64_eq_self.mpr hfit]
    omega
  unfold allow Window.attempt counter setWindow
  dsimp only
  by_cases hzero : (l.byKey key).count = 0
  · simp [hzero]
  by_cases hover : (l.byKey key).windowStart + l.window * ticksPerSecond ≤ now
  · simp [hzero, hover, hend.mpr hover]
  by_cases hfull : l.maxEvents ≤ (l.byKey key).count
  · simp [hzero, hover, hend, hfull]
  · simp [hzero, hover, hend, hfull]

theorem allow_of_ne {key clientKey : String} {now : ℤ} {l : AuthRateLimiter}
    (h : key ≠ clientKey) : (allow clientKey now l).2.counter key = l.counter key := by
  unfold allow counter setWindow
  dsimp only
  repeat' split
  all_goals simp [Function.update_of_ne h]

def ofKey (key : String) (log : List (ℤ × Bool)) : List Answer :=
  log.map fun r => ⟨⟨key, r.1⟩, r.2⟩

section Answers

variable (l : AuthRateLimiter) (rs : List Request) (key : String)

def timesOf : List ℤ := (rs.filter (·.key = key)).map (·.time)

theorem answerAll_limits :
    (answerAll l rs).2.maxEvents = l.maxEvents ∧ (answerAll l rs).2.window = l.window := by
  induction rs using List.reverseRecOn with
  | nil => exact ⟨rfl, rfl⟩
  | append_singleton rs r ih =>
    obtain ⟨hmax, hwindow⟩ := allow_limits r.key r.time (answerAll l rs).2
    rw [answerAll_snoc, answer]
    exact ⟨hmax.trans ih.1, hwindow.trans ih.2⟩

theorem answerAll_windowStart (hl : IsTick (l.byKey key).windowStart)
    (hrs : ∀ r ∈ rs, IsTick r.time) : IsTick ((answerAll l rs).2.byKey key).windowStart := by
  induction rs using List.reverseRecOn with
  | nil => exact hl
  | append_singleton rs r ih =>
    rw [answerAll_snoc, answer]
    rcases windowStart_allow r.key key r.time (answerAll l rs).2 with h | h
    · rw [h]
      exact ih fun r hr => hrs r (List.mem_append_left _ hr)
    · rw [h]
      exact hrs r (List.mem_append_right _ List.mem_cons_self)

variable {l rs key}

theorem answerAll_key (hfit : InInt64 (l.window * ticksPerSecond))
    (hl : IsTick (l.byKey key).windowStart) (hrs : ∀ r ∈ rs, IsTick r.time) :
    (answerAll l rs).2.counter key = (Window.recordAll l.maxEvents (l.window * ticksPerSecond)
      (l.counter key) (timesOf rs key)).2 ∧
    (answerAll l rs).1.filter (·.key = key) = ofKey key (Window.recordAll l.maxEvents
      (l.window * ticksPerSecond) (l.counter key) (timesOf rs key)).1 := by
  induction rs using List.reverseRecOn with
  | nil => exact ⟨rfl, rfl⟩
  | append_singleton rs r ih =>
    have hbefore : ∀ r ∈ rs, IsTick r.time := fun r hr => hrs r (List.mem_append_left _ hr)
    obtain ⟨hcounter, hanswers⟩ := ih hbefore
    obtain ⟨hmax, hwindow⟩ := answerAll_limits l rs
    rw [answerAll_snoc, answer]
    by_cases hkey : r.key = key
    · subst hkey
      have hself := allow_self r.key r.time (answerAll l rs).2 (by rwa [hwindow])
        (hrs r (List.mem_append_right _ List.mem_cons_self))
        (answerAll_windowStart l rs r.key hl hbefore)
      rw [hmax, hwindow, hcounter] at hself
      have htimes : timesOf (rs ++ [r]) r.key = timesOf rs r.key ++ [r.time] := by simp [timesOf]
      rw [htimes, Window.recordAll_snoc, Window.record, ← hself]
      refine ⟨rfl, ?_⟩
      simp [ofKey, List.filter_append, hanswers]
    · have htimes : timesOf (rs ++ [r]) key = timesOf rs key := by simp [timesOf, hkey]
      rw [htimes, allow_of_ne (Ne.symm hkey)]
      refine ⟨hcounter, ?_⟩
      simpa [List.filter_append, hkey] using hanswers

theorem filter_answerAll (hfit : InInt64 (l.window * ticksPerSecond))
    (hl : IsTick (l.byKey key).windowStart) (hrs : ∀ r ∈ rs, IsTick r.time) :
    (answerAll l rs).1.filter (·.key = key) = (answerAll l (rs.filter (·.key = key))).1 := by
  have htimes : timesOf (rs.filter (·.key = key)) key = timesOf rs key := by
    simp [timesOf, List.filter_filter]
  have hall : ∀ a ∈ (answerAll l (rs.filter (·.key = key))).1, decide (a.key = key) := by
    generalize hrs : rs.filter (·.key = key) = rs'
    have hkeys : ∀ r ∈ rs', r.key = key := by
      intro r hr
      rw [← hrs, List.mem_filter] at hr
      exact of_decide_eq_true hr.2
    clear hrs htimes
    induction rs' using List.reverseRecOn with
    | nil => simp [answerAll]
    | append_singleton rs' r ih =>
      intro a ha
      rw [answerAll_snoc, answer, List.mem_append] at ha
      rcases ha with ha | ha
      · exact ih (fun r hr => hkeys r (List.mem_append_left _ hr)) a ha
      · rw [List.mem_singleton.mp ha]
        exact decide_eq_true (hkeys r (List.mem_append_right _ List.mem_cons_self))
  have hrs' : ∀ r ∈ rs.filter (·.key = key), IsTick r.time :=
    fun r hr => hrs r (List.mem_filter.mp hr).1
  rw [(answerAll_key hfit hl hrs).2, ← htimes, ← (answerAll_key hfit hl hrs').2,
    List.filter_eq_self.mpr hall]

end Answers

section Bounds

variable {maxEvents : ℕ} {window : ℤ} {rs : List Request}

theorem countP_allowed {log : List (ℤ × Bool)} {answers : List Answer} {key : String}
    (h : answers.filter (·.key = key) = ofKey key log) (p : ℤ → Bool) :
    answers.countP (fun r => r.key = key ∧ r.allowed ∧ p r.time) =
      (Window.admitted log).countP p := by
  have hleft : answers.countP (fun r => r.key = key ∧ r.allowed ∧ p r.time) =
      (answers.filter (·.key = key)).countP fun r => r.allowed ∧ p r.time := by
    rw [List.countP_filter]
    refine List.countP_congr fun r _ => ?_
    simp [and_comm, and_assoc]
  rw [hleft, h, ofKey, List.countP_map, Window.admitted, List.countP_map, List.countP_filter]
  refine List.countP_congr fun r _ => ?_
  simp [and_comm]

/-- With calls at times that do not decrease and a window that is a number of ticks with 64 bits,
each key is allowed at most twice the number of events in an interval shorter than the window, and
is refused only when it has had that number since less than a window ago. Calls for one key have no
effect on the answers for others. -/
theorem allow_bounds (hmax : 1 ≤ maxEvents) (hwindow : 0 < window) (hfit : window ≤ 9223372036)
    (hclock : ∀ r ∈ rs, IsTick r.time) (hrs : rs.Pairwise (·.time ≤ ·.time)) :
    (∀ key a b, b - a < window * ticksPerSecond →
      (answerAll { maxEvents, window } rs).1.countP
        (fun r => r.key = key ∧ r.allowed ∧ a ≤ r.time ∧ r.time ≤ b) ≤ 2 * maxEvents) ∧
    Always (fun pre r => r.allowed = false → maxEvents ≤ pre.countP fun r' =>
        r'.key = r.key ∧ r'.allowed ∧ r.time - window * ticksPerSecond < r'.time ∧
          r'.time ≤ r.time)
      (answerAll { maxEvents, window } rs).1 ∧
    ∀ key, (answerAll { maxEvents, window } rs).1.filter (·.key = key) =
      (answerAll { maxEvents, window } (rs.filter (·.key = key))).1 := by
  have hticks : 0 < window * ticksPerSecond := by
    unfold ticksPerSecond
    omega
  have hfit' : InInt64 (window * ticksPerSecond) := by
    unfold InInt64 ticksPerSecond
    omega
  have hzero : IsTick 0 := by decide
  have hkey : ∀ key, (answerAll { maxEvents, window } rs).1.filter (·.key = key) = _ :=
    fun key => (answerAll_key hfit' hzero hclock).2
  have htimes : ∀ key, (timesOf rs key).Pairwise (· ≤ ·) := fun key =>
    (hrs.filter _).map _ fun _ _ h => h
  have hinv := fun key => Window.inv_recordAll (c := counter { maxEvents, window } key) hmax hticks
    rfl (htimes key)
  refine ⟨fun key a b hab => ?_, always_of_forall ?_,
    fun key => filter_answerAll hfit' hzero hclock⟩
  · have hbound := (hinv key).1.interval a b (by omega)
    rw [← countP_allowed (hkey key)] at hbound
    simpa using hbound
  · intro pre r post hsplit hrefused
    have hlocal := hkey r.key
    rw [hsplit, List.filter_append, List.filter_cons_of_pos (by simp)] at hlocal
    obtain ⟨log, rest, hlog, hpre, hrest⟩ := List.map_eq_append_iff.mp hlocal.symm
    obtain ⟨x, rest, rfl, hx, -⟩ := List.map_eq_cons_iff.mp hrest
    have hfull := (hlog ▸ (hinv r.key).2).at
    rw [← countP_allowed hpre.symm] at hfull
    have htime : x.1 = r.time := congrArg (·.time) hx
    have hanswer : x.2 = r.allowed := congrArg (·.allowed) hx
    rw [htime, hanswer] at hfull
    refine (hfull hrefused).trans (List.countP_mono_left fun r' _ hr' => ?_)
    simp only [Bool.decide_and, Bool.and_eq_true, decide_eq_true_eq] at hr' ⊢
    obtain ⟨hsame, hallowed, hafter, hbefore⟩ := hr'
    exact ⟨hsame, hallowed, by omega, hbefore⟩

/-- Of three calls in a window of ten seconds two are allowed, and one more when it is over. -/
theorem two_in_ten_seconds :
    ((answerAll { maxEvents := 2, window := 10 }
      [⟨"a", 0⟩, ⟨"a", 0⟩, ⟨"b", 0⟩, ⟨"a", 9999999999⟩, ⟨"a", 10000000000⟩]).1.map (·.allowed) =
        [true, true, true, false, true]) ∧
    (answerAll { maxEvents := 2, window := 10 }
      [⟨"a", 0⟩, ⟨"a", 0⟩, ⟨"b", 0⟩, ⟨"a", 9999999999⟩, ⟨"a", 10000000000⟩]).1.countP
        (fun r => r.key = "a" ∧ r.allowed ∧ 1 ≤ r.time ∧ r.time ≤ 10000000000) ≤ 2 * 2 :=
  ⟨by decide, (allow_bounds (by decide) (by decide) (by decide) (by decide) (by decide)).1 "a" 1
    10000000000 (by decide)⟩

/-- A window that the configuration accepts overflows, and a limit of one event for it lets three
calls at one time through. -/
theorem three_in_long_window :
    ∃ c, Config.loadServerConfigFile
        (some "auth_rate_limit_window_seconds = 9223372037") {} = (.ok (), c) ∧
      0 < c.authRateLimitWindowSeconds.toInt ∧
      (answerAll { maxEvents := 1, window := c.authRateLimitWindowSeconds.toInt }
        [⟨"a", 0⟩, ⟨"a", 0⟩, ⟨"a", 0⟩]).1.countP
          (fun r => r.key = "a" ∧ r.allowed ∧ 0 ≤ r.time ∧ r.time ≤ 0) = 3 :=
  ⟨{ authRateLimitWindowSeconds := 9223372037 }, by decide, by decide, by decide⟩

end Bounds

end AuthRateLimiter

end VoxServer
