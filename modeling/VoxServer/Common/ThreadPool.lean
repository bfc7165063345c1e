import VoxServer.Common.BoundedQueue

/-! # The thread pool

Workers take tasks from a bounded queue, count themselves as active, run the task and
count themselves out again. `WaitForIdle` reads the counter and then the size of the
queue, which are guarded by different locks, so a task can be in neither of them.
-/

namespace VoxServer

/-- Where a worker is in its loop. Tasks are numbered in the order of their submission. -/
inductive Worker
  | popping
  /-- It has the task, and has not increased `active_tasks_` yet. -/
  | popped (task : ℕ)
  | running (task : ℕ)
  /-- The task has ended, and `active_tasks_` is not decreased yet. -/
  | ran
  | stopped
  deriving DecidableEq, Repr

/-- Where a call of `WaitForIdle` is, and how many tasks had been submitted before it. -/
inductive Waiter
  | waiting (before : ℕ)
  | sawNoActive (before : ℕ)
  | sawBusy (before : ℕ)
  | returned (before : ℕ)
  deriving DecidableEq, Repr

namespace Worker

/-- Whether the worker is counted in `active_tasks_`. -/
def counted : Worker → Bool
  | running _ => true
  | ran => true
  | _ => false

def uncounted : Worker → Bool
  | popped _ => true
  | _ => false

def task? : Worker → Option ℕ
  | popped t => some t
  | running t => some t
  | _ => none

theorem task?_eq_none {w : Worker} (hc : w.counted = false) (hu : w.uncounted = false) :
    w.task? = none := by
  cases w with
  | popped t => cases hu
  | running t => cases hc
  | _ => rfl

end Worker

namespace Waiter

def before : Waiter → ℕ
  | waiting n | sawNoActive n | sawBusy n | returned n => n

/-- Whether the call holds `idle_mutex_`: it does while it evaluates its condition. -/
def holdsMutex : Waiter → Bool
  | sawNoActive _ => true
  | sawBusy _ => true
  | _ => false

def betweenReads : Waiter → Bool
  | sawNoActive _ => true
  | _ => false

end Waiter

structure ThreadPool where
  queue : BoundedQueue ℕ
  workers : List Worker
  activeTasks : ℕ := 0
  shutdown : Bool := false
  waiters : List Waiter := []
  submitted : ℕ := 0
  executed : List ℕ := []
  deriving DecidableEq, Repr

namespace ThreadPool

/-- The atomic steps of the threads that use the pool and of its workers. -/
inductive Action
  | submit
  | worker (i : ℕ)
  | waitForIdle
  | waiter (j : ℕ)
  | shutdown
  | shutdownQueue
  deriving DecidableEq, Repr

def create (threadCount queueCapacity : ℕ) : ThreadPool where
  queue := { capacity := queueCapacity }
  workers := List.replicate threadCount .popping

def setWorker (i : ℕ) (w : Worker) (s : ThreadPool) : ThreadPool :=
  { s with workers := s.workers.set i w }

def setWaiter (j : ℕ) (w : Waiter) (s : ThreadPool) : ThreadPool :=
  { s with waiters := s.waiters.set j w }

def idleMutexFree (s : ThreadPool) : Bool := s.waiters.all (!·.holdsMutex)

/-- `Submit` pushes the task; on a queue that is shut down it throws. -/
def submit (s : ThreadPool) : Option ThreadPool :=
  match s.queue.push s.submitted with
  | none => none
  | some (false, _) => some s
  | some (true, q) => some { s with queue := q, submitted := s.submitted + 1 }

/-- The next atomic step of a worker in `WorkerLoop`. -/
def workerStep (i : ℕ) (s : ThreadPool) : Option ThreadPool :=
  match s.workers[i]? with
  | some .popping =>
    match s.queue.pop with
    | none => none
    | some (none, _) => some (s.setWorker i .stopped)
    | some (some task, q) => some { s.setWorker i (.popped task) with queue := q }
  | some (.popped task) =>
    some { s.setWorker i (.running task) with activeTasks := s.activeTasks + 1 }
  | some (.running task) => some { s.setWorker i .ran with executed := s.executed ++ [task] }
  | some .ran => some { s.setWorker i .popping with activeTasks := s.activeTasks - 1 }
  | some .stopped => none
  | none => none

/-- The next atomic step of a call of `WaitForIdle`. The condition is evaluated under
`idle_mutex_`, at the call and whenever it wakes up. -/
def waiterStep (j : ℕ) (s : ThreadPool) : Option ThreadPool :=
  match s.waiters[j]? with
  | some (.waiting n) =>
    if s.idleMutexFree then
      some (s.setWaiter j (if s.activeTasks = 0 then .sawNoActive n else .sawBusy n))
    else none
  | some (.sawNoActive n) =>
    some (s.setWaiter j (if s.queue.queue.length = 0 then .returned n else .sawBusy n))
  | some (.sawBusy n) => some (s.setWaiter j (if s.shutdown then .returned n else .waiting n))
  | some (.returned _) => none
  | none => none

/-- `Shutdown` marks the pool, and then the queue. -/
def step (s : ThreadPool) : Action → Option ThreadPool
  | .submit => s.submit
  | .worker i => s.workerStep i
  | .waitForIdle => some { s with waiters := s.waiters ++ [.waiting s.submitted] }
  | .waiter j => s.waiterStep j
  | .shutdown => if s.idleMutexFree then some { s with shutdown := true } else none
  | .shutdownQueue =>
    if s.shutdown then some { s with queue := { s.queue with shutdown := true } } else none

abbrev run (threadCount queueCapacity : ℕ) (acts : List Action) : Option ThreadPool :=
  Machine.run step (create threadCount queueCapacity) acts

/-- Every call of `WaitForIdle` that has returned left no earlier task unfinished. -/
def Waited (s : ThreadPool) : Prop :=
  s.shutdown = false → ∀ n, .returned n ∈ s.waiters → ∀ t < n, t ∈ s.executed

/-- A task is not taken between the two reads of a `WaitForIdle`, and the counter is not read
while a worker has taken a task and not counted itself. -/
def unhurried (s : ThreadPool) : Action → Bool
  | .worker i =>
    match s.workers[i]? with
    | some .popping => s.waiters.all (!·.betweenReads)
    | _ => true
  | .waiter j =>
    match s.waiters[j]? with
    | some (.waiting _) => s.workers.all (!·.uncounted)
    | _ => true
  | _ => true

section Invariant

variable {s s' : ThreadPool}

/-- Where the tasks are, and what a call of `WaitForIdle` knows between its reads. -/
structure Inv (s : ThreadPool) : Prop where
  active : s.activeTasks = s.workers.countP Worker.counted
  placed : ∀ t < s.submitted,
    t ∈ s.queue.queue ∨ (∃ w ∈ s.workers, w.task? = some t) ∨ t ∈ s.executed
  before : ∀ w ∈ s.waiters, w.before ≤ s.submitted
  noneActive : ∀ n, .sawNoActive n ∈ s.waiters → ∀ w ∈ s.workers, w.task? = none
  waited : s.Waited

theorem inv_create (n c : ℕ) : (create n c).Inv where
  active := (List.countP_eq_zero.mpr (by simp [create, Worker.counted])).symm
  placed := by simp [create]
  before := by simp [create]
  noneActive := by simp [create]
  waited := by simp [Waited, create]

/-- What a worker's step does: stop, or move on with its task. -/
inductive WorkerMoves (s : ThreadPool) (i : ℕ) : ThreadPool → Prop
  | stop (h : s.workers[i]? = some .popping) : WorkerMoves s i (s.setWorker i .stopped)
  | pop {t : ℕ} {ts : List ℕ} (h : s.workers[i]? = some .popping) (hq : s.queue.queue = t :: ts) :
    WorkerMoves s i { s.setWorker i (.popped t) with queue := { s.queue with queue := ts } }
  | count {t : ℕ} (h : s.workers[i]? = some (.popped t)) :
    WorkerMoves s i { s.setWorker i (.running t) with activeTasks := s.activeTasks + 1 }
  | execute {t : ℕ} (h : s.workers[i]? = some (.running t)) :
    WorkerMoves s i { s.setWorker i .ran with executed := s.executed ++ [t] }
  | uncount (h : s.workers[i]? = some .ran) :
    WorkerMoves s i { s.setWorker i .popping with activeTasks := s.activeTasks - 1 }

theorem workerStep_moves {i : ℕ} (h : s.workerStep i = some s') : WorkerMoves s i s' := by
  unfold workerStep at h
  split at h
  case h_1 hw =>
    split at h
    · cases h
    · cases h
      exact .stop hw
    · rename_i hpop
      cases h
      rcases BoundedQueue.pop_eq_some hpop with ⟨hnone, -⟩ | ⟨x, xs, hx, hq, rfl⟩
      · cases hnone
      · cases hx
        exact .pop hw hq
  case h_2 hw => cases h; exact .count hw
  case h_3 hw => cases h; exact .execute hw
  case h_4 hw => cases h; exact .uncount hw
  case h_5 => cases h
  case h_6 => cases h

theorem countP_set_worker {i : ℕ} {w : Worker} {ws : List Worker} {p : Worker → Bool}
    (h : ws[i]? = some w) (w' : Worker) :
    (ws.set i w').countP p + (p w).toNat = ws.countP p + (p w').toNat := by
  obtain ⟨hi, rfl⟩ := List.getElem?_eq_some_iff.mp h
  have hpos : (p ws[i]).toNat ≤ ws.countP p := by
    cases hp : p ws[i] with
    | false => exact Nat.zero_le _
    | true => exact List.countP_pos_iff.mpr ⟨_, List.getElem_mem hi, hp⟩
  rw [List.countP_set hi]
  have hcond : ∀ b : Bool, (if b then 1 else 0) = b.toNat := by decide
  rw [hcond, hcond]
  omega

theorem task_set_worker {i t : ℕ} {w : Worker} {ws : List Worker} (h : ws[i]? = some w)
    (w' : Worker) (ht : ∃ v ∈ ws, v.task? = some t) :
    w.task? = some t ∨ ∃ v ∈ ws.set i w', v.task? = some t := by
  obtain ⟨v, hv, ht⟩ := ht
  obtain ⟨j, hj, rfl⟩ := List.getElem_of_mem hv
  by_cases hij : i = j
  · subst hij
    obtain ⟨hi, rfl⟩ := List.getElem?_eq_some_iff.mp h
    exact .inl ht
  · refine .inr ⟨ws[j], ?_, ht⟩
    have hget : (ws.set i w')[j]? = some ws[j] := by
      rw [List.getElem?_set_ne hij, List.getElem?_eq_getElem hj]
    exact List.mem_iff_getElem?.mpr ⟨j, hget⟩

theorem Inv.move (hs : s.Inv) {i : ℕ} {w w' : Worker} (hw : s.workers[i]? = some w)
    (hws : s'.workers = s.workers.set i w') (hsub : s'.submitted = s.submitted)
    (hwait : s'.waiters = s.waiters) (hshut : s'.shutdown = s.shutdown)
    (hact : s'.activeTasks + w.counted.toNat = s.activeTasks + w'.counted.toNat)
    (hq : ∀ t ∈ s.queue.queue, t ∈ s'.queue.queue ∨ w'.task? = some t)
    (ht : ∀ t, w.task? = some t → w'.task? = some t ∨ t ∈ s'.executed)
    (he : ∀ t ∈ s.executed, t ∈ s'.executed)
    (hn : w.task? = none → w'.task? = none ∨ ∀ n, .sawNoActive n ∉ s.waiters) : s'.Inv where
  active := by
    have hc := countP_set_worker (p := Worker.counted) hw w'
    rw [hws]
    have := hs.active
    omega
  placed t hlt := by
    have hi := (List.getElem?_eq_some_iff.mp hw).1
    have hmem : w'.task? = some t → ∃ v ∈ s'.workers, v.task? = some t := fun h =>
      ⟨w', hws ▸ List.mem_set hi w', h⟩
    rcases hs.placed t (hsub ▸ hlt) with h | h | h
    · exact (hq t h).imp_right fun h => .inl (hmem h)
    · rcases task_set_worker hw w' h with h | h
      · exact .inr ((ht t h).imp_left hmem)
      · exact .inr (.inl (hws ▸ h))
    · exact .inr (.inr (he t h))
  before v hv := hsub ▸ hs.before v (hwait ▸ hv)
  noneActive n hmem v hv := by
    rw [hwait] at hmem
    rw [hws] at hv
    rcases List.mem_or_eq_of_mem_set hv with hv | rfl
    · exact hs.noneActive n hmem v hv
    · exact (hn (hs.noneActive n hmem w (List.mem_of_getElem? hw))).resolve_right fun h => h n hmem
  waited hsh n hmem t hlt := he t (hs.waited (hshut ▸ hsh) n (hwait ▸ hmem) t hlt)

theorem Inv.workerStep (hs : s.Inv) {i : ℕ} (hu : s.unhurried (.worker i))
    (h : s.workerStep i = some s') : s'.Inv := by
  cases workerStep_moves h with
  | stop hw =>
    refine hs.move hw rfl rfl rfl rfl rfl (fun t h => .inl h) (fun t h => ?_) (fun t h => h)
      fun _ => .inl rfl
    cases h
  | @pop t ts hw hq =>
    refine hs.move hw rfl rfl rfl rfl rfl (fun t' h => ?_) (fun t h => ?_) (fun t h => h)
      fun _ => .inr fun n hn => ?_
    · rw [hq, List.mem_cons] at h
      exact h.symm.imp_right fun h => congrArg some h.symm
    · cases h
    · -- no task is taken while a call is between its reads
      simp only [unhurried, hw, List.all_eq_true] at hu
      cases hu _ hn
  | @count t hw =>
    exact hs.move hw rfl rfl rfl rfl rfl (fun t h => .inl h) (fun t h => .inl h) (fun t h => h)
      .inl
  | @execute t hw =>
    refine hs.move hw rfl rfl rfl rfl rfl (fun t h => .inl h) (fun t' h => ?_)
      (fun t h => List.mem_append_left _ h) fun _ => .inl rfl
    cases h
    exact .inr (List.mem_append_right _ (List.mem_singleton.mpr rfl))
  | uncount hw =>
    have hpos : 0 < s.activeTasks := by
      rw [hs.active, List.countP_pos_iff]
      exact ⟨_, List.mem_of_getElem? hw, rfl⟩
    refine hs.move hw rfl rfl rfl rfl ?_ (fun t h => .inl h) (fun t h => ?_) (fun t h => h)
      fun _ => .inl rfl
    · exact Nat.sub_add_cancel hpos
    · cases h

theorem Inv.wait (hs : s.Inv) {j : ℕ} {w w' : Waiter} (hw : s.waiters[j]? = some w)
    (hb : w'.before = w.before)
    (hn : ∀ n, w' = .sawNoActive n → ∀ v ∈ s.workers, v.task? = none)
    (hr : ∀ n, w' = .returned n → s.shutdown = false → ∀ t < n, t ∈ s.executed) :
    (s.setWaiter j w').Inv where
  active := hs.active
  placed := hs.placed
  before v hv := by
    rcases List.mem_or_eq_of_mem_set hv with hv | rfl
    · exact hs.before v hv
    · exact hb ▸ hs.before w (List.mem_of_getElem? hw)
  noneActive n hmem := (List.mem_or_eq_of_mem_set hmem).elim (hs.noneActive n) fun h => hn n h.symm
  waited hsh n hmem :=
    (List.mem_or_eq_of_mem_set hmem).elim (hs.waited hsh n) fun h => hr n h.symm hsh

/-- Once no worker has a task and the queue is empty, everything submitted has been executed. -/
theorem Inv.all_executed (hs : s.Inv) (hw : ∀ w ∈ s.workers, w.task? = none)
    (hq : s.queue.queue.length = 0) : ∀ t < s.submitted, t ∈ s.executed := by
  intro t ht
  rcases hs.placed t ht with h | ⟨w, hmem, h⟩ | h
  · rw [List.length_eq_zero_iff.mp hq] at h
    cases h
  · rw [hw w hmem] at h
    cases h
  · exact h

theorem Inv.waiterStep (hs : s.Inv) {j : ℕ} (hu : s.unhurried (.waiter j))
    (h : s.waiterStep j = some s') : s'.Inv := by
  unfold ThreadPool.waiterStep at h
  split at h
  case h_1 n hw =>
    split at h
    · cases h
      simp only [unhurried, hw, List.all_eq_true] at hu
      split
      · rename_i h0
        refine hs.wait hw rfl (fun m _ v hv => ?_) (fun m h => by cases h)
        refine Worker.task?_eq_none ?_ (by simpa using hu v hv)
        simpa using List.countP_eq_zero.mp (hs.active ▸ h0) v hv
      · exact hs.wait hw rfl (fun m h => by cases h) (fun m h => by cases h)
    · cases h
  case h_2 n hw =>
    cases h
    have hmem := List.mem_of_getElem? hw
    split
    · rename_i h0
      refine hs.wait hw rfl (fun m h => by cases h) fun m h _ t ht => ?_
      cases h
      exact hs.all_executed (hs.noneActive n hmem) h0 t (Nat.lt_of_lt_of_le ht (hs.before _ hmem))
    · exact hs.wait hw rfl (fun m h => by cases h) (fun m h => by cases h)
  case h_3 n hw =>
    cases h
    split
    · rename_i h1
      refine hs.wait hw rfl (fun m h => by cases h) fun m _ h => ?_
      rw [h1] at h
      cases h
    · exact hs.wait hw rfl (fun m h => by cases h) (fun m h => by cases h)
  case h_4 => cases h
  case h_5 => cases h

theorem Inv.submit (hs : s.Inv) (h : s.submit = some s') : s'.Inv := by
  unfold ThreadPool.submit at h
  split at h
  case h_1 => cases h
  case h_2 => cases h; exact hs
  case h_3 q hpush =>
    cases h
    rcases BoundedQueue.push_eq_some hpush with ⟨hb, -⟩ | ⟨-, -, -, rfl⟩
    · cases hb
    · refine ⟨hs.active, fun t ht => ?_, fun w hw => Nat.le_succ_of_le (hs.before w hw),
        hs.noneActive, hs.waited⟩
      rcases Nat.lt_succ_iff_lt_or_eq.mp ht with ht | rfl
      · exact (hs.placed t ht).imp_left (List.mem_append_left _)
      · exact .inl (List.mem_append_right _ (List.mem_singleton.mpr rfl))

theorem Inv.step (hs : s.Inv) {a : Action} (hu : s.unhurried a) (h : s.step a = some s') :
    s'.Inv := by
  cases a with
  | submit => exact hs.submit h
  | worker i => exact hs.workerStep hu h
  | waitForIdle =>
    cases h
    refine ⟨hs.active, hs.placed, fun w hw => ?_, fun n hn => ?_, fun hsh n hn => ?_⟩
    · rcases List.mem_append.mp hw with hw | hw
      · exact hs.before w hw
      · rw [List.mem_singleton.mp hw]
        exact Nat.le_refl _
    · exact hs.noneActive n (by simpa using hn)
    · exact hs.waited hsh n (by simpa using hn)
  | waiter j => exact hs.waiterStep hu h
  | shutdown =>
    simp only [ThreadPool.step] at h
    split at h
    · cases h
      exact ⟨hs.active, hs.placed, hs.before, hs.noneActive, fun h => by cases h⟩
    · cases h
  | shutdownQueue =>
    simp only [ThreadPool.step] at h
    split at h
    · cases h
      exact ⟨hs.active, hs.placed, hs.before, hs.noneActive, hs.waited⟩
    · cases h

end Invariant

/-- In every interleaving that takes no task between the two reads of a `WaitForIdle`, nor reads
the counter while a worker has taken a task and not counted itself, the calls that have returned
left no earlier task unfinished. -/
theorem waited_of_unhurried {n c : ℕ} {acts : List Action} {s : ThreadPool}
    (hrun : run n c acts = some s) (hu : Machine.always step unhurried (create n c) acts) :
    s.Waited :=
  (Machine.run_invariant step (fun _ _ _ hs hu h => hs.step hu h) (inv_create n c) hrun hu).waited

/-- A task is submitted and waited for; it runs between two evaluations of the condition. -/
def oneTask : List Action :=
  [.submit, .waitForIdle, .worker 0, .worker 0, .waiter 0, .waiter 0, .worker 0, .worker 0,
    .waiter 0, .waiter 0]

theorem oneTask_waited : (run 1 1 oneTask).any (.returned 1 ∈ ·.waiters) ∧
    ∀ s, run 1 1 oneTask = some s → s.Waited :=
  ⟨by decide, fun _ h => waited_of_unhurried h (by decide)⟩

/-- The only worker has taken the only task and not counted itself yet; `WaitForIdle` returns. -/
theorem popped_not_waited : ∃ s, run 1 1 [.submit, .worker 0, .waitForIdle, .waiter 0,
    .waiter 0] = some s ∧ .returned 1 ∈ s.waiters ∧ s.executed = [] ∧ ¬ s.Waited :=
  ⟨_, rfl, by decide, rfl, fun h => absurd (h rfl 1 (by decide) 0 (by decide)) (by decide)⟩

end ThreadPool

end VoxServer
