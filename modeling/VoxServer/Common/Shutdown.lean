import Mathlib.Data.List.Nodup
import VoxServer.Common.ThreadPool

/-! # Shutting the pool down

`Shutdown` marks the pool, closes the queue and joins the workers one after another.
A worker leaves its loop only when the queue is closed and empty, and a closed queue
takes no task, so every task that a `Submit` handed over has been executed when the
last worker has been joined.
-/

namespace VoxServer.ThreadPool

/-- Where a call of `Submit` is: before its `Push` has ended, or at its end. -/
inductive SubmitCall
  | pushing
  | returned
  | threw
  deriving DecidableEq, Repr

/-- Where the call of `Shutdown` is. -/
inductive ShutdownCall
  | notCalled
  | marked
  /-- The workers before this one have been joined. -/
  | joining (next : ℕ)
  | returned
  deriving DecidableEq, Repr

/-- A pool with the calls of `Submit` and `Shutdown` that are made on it. -/
structure Managed where
  pool : ThreadPool
  calls : List SubmitCall := []
  /-- The call that each task comes from, in the order of submission. -/
  owner : List ℕ := []
  phase : ShutdownCall := .notCalled
  deriving DecidableEq, Repr

namespace Managed

inductive Action
  | submit
  | push (j : ℕ)
  | worker (i : ℕ)
  | waitForIdle
  | waiter (j : ℕ)
  | shutdown
  deriving DecidableEq, Repr

/-- The `Push` of a call; `Submit` then returns the future, or throws. -/
def push (j : ℕ) (s : Managed) : Option Managed :=
  match s.pool.queue.push s.pool.submitted with
  | none => none
  | some (false, _) => some { s with calls := s.calls.set j .threw }
  | some (true, queue) => some { s with
      pool := { s.pool with queue, submitted := s.pool.submitted + 1 }
      calls := s.calls.set j .returned
      owner := s.owner ++ [j] }

/-- The next atomic step of `Shutdown`. -/
def shutdownStep (s : Managed) : Option Managed :=
  match s.phase with
  | .notCalled => (s.pool.step .shutdown).map fun pool => { s with pool, phase := .marked }
  | .marked => (s.pool.step .shutdownQueue).map fun pool => { s with pool, phase := .joining 0 }
  | .joining i =>
    match s.pool.workers[i]? with
    | some .stopped => some { s with phase := .joining (i + 1) }
    | some _ => none
    | none => some { s with phase := .returned }
  | .returned => none

def step (s : Managed) : Action → Option Managed
  | .submit => some { s with calls := s.calls ++ [.pushing] }
  | .push j => if s.calls[j]? = some .pushing then s.push j else none
  | .worker i => (s.pool.step (.worker i)).map fun pool => { s with pool }
  | .waitForIdle => (s.pool.step .waitForIdle).map fun pool => { s with pool }
  | .waiter j => (s.pool.step (.waiter j)).map fun pool => { s with pool }
  | .shutdown => s.shutdownStep

abbrev run (threadCount queueCapacity : ℕ) (acts : List Action) : Option Managed :=
  Machine.run step { pool := create threadCount queueCapacity } acts

def executions (s : Managed) : List ℕ := s.pool.executed.filterMap (s.owner[·]?)

/-- When `Shutdown` has returned, the task of each `Submit` that returned has been executed once and
no worker can move; the task of a `Submit` that threw is never executed. -/
structure Graceful (s : Managed) : Prop where
  ran_once : s.phase = .returned → ∀ j, s.calls[j]? = some .returned → s.executions.count j = 1
  threw_never : ∀ j, s.calls[j]? = some .threw → s.executions.count j = 0
  none_starts : s.phase = .returned → ∀ i, s.pool.workerStep i = none

end Managed

section Workers

variable {s s' : ThreadPool} {i : ℕ}

/-- How often a task is in the queue, with a worker, or executed. -/
def copies (s : ThreadPool) (t : ℕ) : ℕ :=
  s.queue.queue.count t + s.workers.countP (·.task? = some t) + s.executed.count t

theorem drained_of_stop (hw : s.workers[i]? = some .popping)
    (h : s.workerStep i = some (s.setWorker i .stopped)) :
    s.queue.shutdown = true ∧ s.queue.queue = [] := by
  have hi := (List.getElem?_eq_some_iff.mp hw).1
  simp only [workerStep, hw, BoundedQueue.pop] at h
  cases hq : s.queue.queue with
  | nil =>
    cases hsh : s.queue.shutdown with
    | false => simp [hq, hsh] at h
    | true => exact ⟨rfl, rfl⟩
  | cons t ts =>
    simp only [hq, Option.some.injEq] at h
    have hset := congrArg (fun s : ThreadPool => s.workers[i]?) h
    simp [setWorker, hi] at hset

/-- What a step of a worker changes: one worker moves, and its task goes with it. -/
structure Moved (s : ThreadPool) (i : ℕ) (s' : ThreadPool) : Prop where
  workers : ∃ w, s'.workers = s.workers.set i w ∧
    (w = .stopped → s.queue.shutdown = true ∧ s.queue.queue = [])
  running : s.workers[i]? ≠ some .stopped
  marked : s'.shutdown = s.shutdown
  closed : s'.queue.shutdown = s.queue.shutdown
  empty : s.queue.queue = [] → s'.queue.queue = []
  submitted : s'.submitted = s.submitted
  copies : ∀ t, s'.copies t = s.copies t

theorem copies_of_set {w : Worker} (hw : s.workers[i]? = some w) (w' : Worker)
    (hws : s'.workers = s.workers.set i w') {t : ℕ}
    (h : s'.queue.queue.count t + (decide (w'.task? = some t)).toNat + s'.executed.count t =
      s.queue.queue.count t + (decide (w.task? = some t)).toNat + s.executed.count t) :
    s'.copies t = s.copies t := by
  have hset := countP_set_worker (p := (·.task? = some t)) hw w'
  simp only [copies, hws]
  omega

theorem moved_of_workerStep (h : s.workerStep i = some s') : Moved s i s' := by
  have hmoves := workerStep_moves h
  cases hmoves with
  | stop hw =>
    refine ⟨⟨_, rfl, fun _ => drained_of_stop hw h⟩, by simp [hw], rfl, rfl, id, rfl, fun t => ?_⟩
    exact copies_of_set hw .stopped rfl rfl
  | @pop t ts hw hq =>
    refine ⟨⟨_, rfl, by simp⟩, by simp [hw], rfl, rfl, by simp [hq], rfl, fun t' => ?_⟩
    apply copies_of_set hw (.popped t) rfl
    by_cases ht : t = t'
    · simp [hq, ht, setWorker, Worker.task?]
    · simp [hq, ht, setWorker, Worker.task?]
  | @count t hw =>
    refine ⟨⟨_, rfl, by simp⟩, by simp [hw], rfl, rfl, id, rfl, fun t' => ?_⟩
    exact copies_of_set hw (.running t) rfl rfl
  | @execute t hw =>
    refine ⟨⟨_, rfl, by simp⟩, by simp [hw], rfl, rfl, id, rfl, fun t' => ?_⟩
    apply copies_of_set hw .ran rfl
    by_cases ht : t = t'
    · simp [ht, setWorker, Worker.task?]
      omega
    · simp [ht, setWorker, Worker.task?]
  | uncount hw =>
    refine ⟨⟨_, rfl, by simp⟩, by simp [hw], rfl, rfl, id, rfl, fun t => ?_⟩
    exact copies_of_set hw .popping rfl rfl

theorem Moved.stopped {k : ℕ} (h : Moved s i s') (hk : s.workers[k]? = some .stopped) :
    s'.workers[k]? = some .stopped := by
  obtain ⟨w, hw, -⟩ := h.workers
  have hne : i ≠ k := by
    rintro rfl
    exact h.running hk
  rw [hw, List.getElem?_set_ne hne, hk]

theorem workerStep_eq_none (h : ∀ w ∈ s.workers, w = .stopped) : s.workerStep i = none := by
  unfold workerStep
  cases hw : s.workers[i]? with
  | none => rfl
  | some w => rw [h w (List.mem_of_getElem? hw)]

theorem waiterStep_frame {j : ℕ} (h : s.waiterStep j = some s') :
    ∃ ws, s' = { s with waiters := ws } := by
  unfold waiterStep at h
  split at h
  case h_1 =>
    split at h
    · cases h
      exact ⟨_, rfl⟩
    · cases h
  case h_2 => cases h; exact ⟨_, rfl⟩
  case h_3 => cases h; exact ⟨_, rfl⟩
  case h_4 => cases h
  case h_5 => cases h

end Workers

namespace Managed

/-- Each task is in one place and comes from one call that returned, a worker that has stopped left
the queue closed and empty, and the joined workers have stopped. -/
structure Inv (n : ℕ) (s : Managed) : Prop where
  placed : ∀ t, s.pool.copies t = (decide (t < s.pool.submitted)).toNat
  owners : s.owner.length = s.pool.submitted
  distinct : s.owner.Nodup
  accepted : ∀ j, j ∈ s.owner ↔ s.calls[j]? = some .returned
  drained : .stopped ∈ s.pool.workers →
    s.pool.queue.shutdown = true ∧ s.pool.queue.queue = []
  threads : s.pool.workers.length = n
  marked : s.phase = .marked → s.pool.shutdown = true
  joined : ∀ i, s.phase = .joining i → s.pool.queue.shutdown = true ∧
    ∀ k < i, s.pool.workers[k]? = some .stopped
  returned : s.phase = .returned → ∀ w ∈ s.pool.workers, w = .stopped

section Invariant

variable {n : ℕ} {s s' : Managed}

theorem inv_create (n c : ℕ) : Inv n { pool := create n c } where
  placed t := by simp [copies, create, Worker.task?]
  owners := rfl
  distinct := List.nodup_nil
  accepted := by simp
  drained := by simp [create, List.mem_replicate]
  threads := by simp [create]
  marked := by simp
  joined := by simp
  returned := by simp

theorem Inv.worker {i : ℕ} {pool : ThreadPool} (hs : s.Inv n)
    (h : s.pool.workerStep i = some pool) : Inv n { s with pool } := by
  have hm := moved_of_workerStep h
  obtain ⟨w, hw, hstop⟩ := hm.workers
  exact {
    placed := fun t => by rw [hm.copies, hm.submitted, hs.placed]
    owners := hs.owners.trans hm.submitted.symm
    distinct := hs.distinct
    accepted := hs.accepted
    drained := fun hmem => by
      have hold : s.pool.queue.shutdown = true ∧ s.pool.queue.queue = [] := by
        rw [hw] at hmem
        rcases List.mem_or_eq_of_mem_set hmem with hmem | heq
        · exact hs.drained hmem
        · exact hstop heq.symm
      exact ⟨hm.closed.trans hold.1, hm.empty hold.2⟩
    threads := by rw [hw, List.length_set, hs.threads]
    marked := fun hp => hm.marked.trans (hs.marked hp)
    joined := fun k hp => by
      obtain ⟨hclosed, hk⟩ := hs.joined k hp
      exact ⟨hm.closed.trans hclosed, fun l hl => hm.stopped (hk l hl)⟩
    returned := fun hp => by
      rw [workerStep_eq_none (hs.returned hp)] at h
      cases h }

theorem Inv.waiters (hs : s.Inv n) (ws : List Waiter) :
    Inv n { s with pool := { s.pool with waiters := ws } } :=
  { hs with }

theorem Inv.submit (hs : s.Inv n) : Inv n { s with calls := s.calls ++ [.pushing] } where
  __ := hs
  accepted j := by
    rw [hs.accepted j]
    by_cases hj : j < s.calls.length
    · rw [List.getElem?_append_left hj]
    · have hle := Nat.le_of_not_lt hj
      rw [List.getElem?_append_right hle, List.getElem?_eq_none hle]
      cases hk : j - s.calls.length with
      | zero => simp
      | succ k => simp

theorem Inv.push {j : ℕ} (hs : s.Inv n) (hj : s.calls[j]? = some .pushing)
    (h : s.push j = some s') : s'.Inv n := by
  have hnot : j ∉ s.owner := by
    rw [hs.accepted, hj]
    simp
  have hlt := (List.getElem?_eq_some_iff.mp hj).1
  unfold Managed.push at h
  split at h
  case h_1 => cases h
  case h_2 =>
    cases h
    refine { hs with accepted := fun k => ?_ }
    by_cases hk : j = k
    · subst hk
      simp [hnot, hlt]
    · rw [hs.accepted, List.getElem?_set_ne hk]
  case h_3 queue hpush =>
    cases h
    rcases BoundedQueue.push_eq_some hpush with ⟨hb, -⟩ | ⟨-, hopen, -, rfl⟩
    · cases hb
    · exact {
        placed := fun t => by
          have hold := hs.placed t
          simp only [copies] at hold ⊢
          simp only [List.count_append, List.count_singleton]
          by_cases ht : s.pool.submitted = t
          · subst ht
            have hnone : decide (s.pool.submitted < s.pool.submitted) = false := by simp
            have hself : decide (s.pool.submitted < s.pool.submitted + 1) = true := by simp
            rw [hnone] at hold
            rw [hself, beq_self_eq_true, if_pos rfl]
            simp only [Bool.toNat_false, Bool.toNat_true] at hold ⊢
            omega
          · have hiff : t < s.pool.submitted + 1 ↔ t < s.pool.submitted := by omega
            simp only [hiff, ← hold]
            simp [ht]
        owners := by simp [hs.owners]
        distinct := by simpa using hs.distinct.concat hnot
        accepted := fun k => by
          rw [List.mem_append, List.mem_singleton]
          by_cases hk : k = j
          · subst hk
            simp [hlt]
          · rw [List.getElem?_set_ne (Ne.symm hk), ← hs.accepted]
            simp [hk]
        drained := fun hmem => by
          rw [(hs.drained hmem).1] at hopen
          cases hopen
        threads := hs.threads
        marked := hs.marked
        joined := fun i hp => by
          rw [(hs.joined i hp).1] at hopen
          cases hopen
        returned := hs.returned }

theorem Inv.shutdown (hs : s.Inv n) (h : s.shutdownStep = some s') : s'.Inv n := by
  unfold shutdownStep at h
  split at h
  case h_1 hp =>
    obtain ⟨pool, hpool, rfl⟩ := Option.map_eq_some_iff.mp h
    simp only [ThreadPool.step] at hpool
    split at hpool
    · cases hpool
      exact { hs with
        marked := fun _ => rfl
        joined := fun i hp => by cases hp
        returned := fun hp => by cases hp }
    · cases hpool
  case h_2 hp =>
    obtain ⟨pool, hpool, rfl⟩ := Option.map_eq_some_iff.mp h
    simp only [ThreadPool.step] at hpool
    split at hpool
    · cases hpool
      exact { hs with
        drained := fun hmem => ⟨rfl, (hs.drained hmem).2⟩
        marked := fun hp => by cases hp
        joined := fun i hp => by cases hp; exact ⟨rfl, by simp⟩
        returned := fun hp => by cases hp }
    · cases hpool
  case h_3 i hp =>
    obtain ⟨hclosed, hjoined⟩ := hs.joined i hp
    split at h
    · rename_i hi
      cases h
      refine { hs with
        marked := fun hp => by cases hp
        joined := fun k hk => ?_
        returned := fun hp => by cases hp }
      cases hk
      refine ⟨hclosed, fun k hk => ?_⟩
      rcases Nat.lt_succ_iff_lt_or_eq.mp hk with hk | rfl
      · exact hjoined k hk
      · exact hi
    · cases h
    · rename_i hi
      cases h
      refine { hs with
        marked := fun hp => by cases hp
        joined := fun k hk => by cases hk
        returned := fun _ w hw => ?_ }
      obtain ⟨k, hk⟩ := List.mem_iff_getElem?.mp hw
      have hlt : k < s.pool.workers.length := (List.getElem?_eq_some_iff.mp hk).1
      have hle := List.getElem?_eq_none_iff.mp hi
      exact Option.some.inj (hk.symm.trans (hjoined k (by omega)))
  case h_4 => cases h

theorem Inv.step {a : Action} (hs : s.Inv n) (h : s.step a = some s') : s'.Inv n := by
  cases a with
  | submit =>
    cases h
    exact hs.submit
  | push j =>
    simp only [Managed.step] at h
    split at h
    · exact hs.push ‹_› h
    · cases h
  | worker i =>
    obtain ⟨pool, hpool, rfl⟩ := Option.map_eq_some_iff.mp h
    exact hs.worker hpool
  | waitForIdle =>
    cases h
    exact hs.waiters _
  | waiter j =>
    obtain ⟨pool, hpool, rfl⟩ := Option.map_eq_some_iff.mp h
    obtain ⟨ws, rfl⟩ := waiterStep_frame hpool
    exact hs.waiters ws
  | shutdown => exact hs.shutdown h

theorem Inv.count_executions (hs : s.Inv n) {j t : ℕ} (ht : s.owner[t]? = some j) :
    s.executions.count j = s.pool.executed.count t := by
  rw [executions, List.count_filterMap, List.count]
  apply List.countP_congr
  intro k _
  simp only [beq_iff_eq]
  constructor
  · intro hk
    have hlt := (List.getElem?_eq_some_iff.mp hk).1
    exact (List.getElem?_inj hlt hs.distinct).mp (hk.trans ht.symm)
  · rintro rfl
    exact ht

theorem Inv.executed_once (hs : s.Inv n) (hn : 0 < n) (h : ∀ w ∈ s.pool.workers, w = .stopped)
    {t : ℕ} (ht : t < s.pool.submitted) : s.pool.executed.count t = 1 := by
  have hpos : 0 < s.pool.workers.length := hs.threads ▸ hn
  have hq : s.pool.queue.queue = [] := by
    have hmem := List.getElem_mem hpos
    rw [h _ hmem] at hmem
    exact (hs.drained hmem).2
  have hw : s.pool.workers.countP (·.task? = some t) = 0 := by
    rw [List.countP_eq_zero]
    intro w hw
    rw [h w hw]
    simp [Worker.task?]
  have hone := hs.placed t
  simpa [copies, hq, hw, ht] using hone

theorem Inv.ends_gracefully (hs : s.Inv n) (hn : 0 < n) : s.Graceful where
  ran_once hp j hj := by
    obtain ⟨t, ht⟩ := List.mem_iff_getElem?.mp ((hs.accepted j).mpr hj)
    have hlt := (List.getElem?_eq_some_iff.mp ht).1
    rw [hs.count_executions ht, hs.executed_once hn (hs.returned hp) (hs.owners ▸ hlt)]
  threw_never j hj := by
    rw [List.count_eq_zero]
    intro hmem
    obtain ⟨t, -, ht⟩ := List.mem_filterMap.mp hmem
    have hret := (hs.accepted j).mp (List.mem_of_getElem? ht)
    rw [hj] at hret
    cases hret
  none_starts hp i := workerStep_eq_none (hs.returned hp)

end Invariant

theorem inv_run {n c : ℕ} {acts : List Action} {s : Managed} (hrun : run n c acts = some s) :
    s.Inv n := by
  apply Machine.run_invariant step (p := fun _ _ => true) _ (inv_create n c) hrun
  · exact Machine.always_of_forall _ (fun _ _ _ => rfl) _
  · intro s a s' hs _ h
    exact hs.step h

/-- `Shutdown` does not block: until it returns, it can move itself, or the worker can that it waits
for. -/
theorem shutdown_progress {n c : ℕ} {acts : List Action} {s : Managed}
    (hrun : run n c acts = some s) (hcalled : s.phase ≠ .notCalled) (hret : s.phase ≠ .returned) :
    (s.step .shutdown).isSome ∨ ∃ i, (s.step (.worker i)).isSome := by
  have hs := inv_run hrun
  simp only [step, shutdownStep]
  cases hp : s.phase with
  | notCalled => exact absurd hp hcalled
  | marked => exact .inl (by simp [ThreadPool.step, hs.marked hp])
  | joining i =>
    cases hw : s.pool.workers[i]? with
    | none => exact .inl (by simp [hw])
    | some w =>
      cases w with
      | stopped => exact .inl (by simp [hw])
      | popping =>
        refine .inr ⟨i, ?_⟩
        simp only [ThreadPool.step, workerStep, hw, BoundedQueue.pop, (hs.joined i hp).1]
        cases s.pool.queue.queue with
        | nil => rfl
        | cons t ts => rfl
      | _ => exact .inr ⟨i, by simp [ThreadPool.step, workerStep, hw]⟩
  | returned => exact absurd hp hret

/-- In every interleaving of calls of `Submit`, the steps of at least one worker and a call of
`Shutdown`, the accepted tasks have been executed once when `Shutdown` returns, those of a `Submit`
that threw never are, and no task starts afterwards. -/
theorem graceful {n c : ℕ} (hn : 0 < n) {acts : List Action} {s : Managed}
    (hrun : run n c acts = some s) : s.Graceful :=
  (inv_run hrun).ends_gracefully hn

/-- Two tasks are submitted and a third one comes too late; the only worker drains the queue. -/
def twoTasks : List Action :=
  [.submit, .push 0, .submit, .push 1, .shutdown, .worker 0, .shutdown, .submit, .push 2] ++
    List.replicate 8 (.worker 0) ++ [.shutdown, .shutdown]

theorem twoTasks_graceful : (run 1 2 twoTasks).any (fun s => s.phase = .returned ∧
    s.calls = [.returned, .returned, .threw] ∧ s.executions = [0, 1]) ∧
      ∀ s, run 1 2 twoTasks = some s → s.Graceful :=
  ⟨by decide, fun _ h => graceful Nat.one_pos h⟩

end Managed

end VoxServer.ThreadPool
