import VoxServer.Interleaving.History
import VoxServer.Machine.Monitor

/-! # The bounded queue

Threads hand items over through a queue of limited size. `Push` waits for room and `Pop`
for an item, and nobody waits any more once the queue is shut down. Whatever the threads
do, items come out in the order in which they were accepted, and none is lost.
-/

namespace VoxServer

structure BoundedQueue (α : Type) where
  capacity : ℕ
  queue : List α := []
  shutdown : Bool := false
  deriving DecidableEq, Repr

namespace BoundedQueue

variable {α : Type}

/-- `Push`, or `none` while it waits for room. -/
def push (item : α) (q : BoundedQueue α) : Option (Bool × BoundedQueue α) :=
  if q.shutdown then some (false, q)
  else if q.queue.length < q.capacity then some (true, { q with queue := q.queue ++ [item] })
  else none

def tryPush (item : α) (q : BoundedQueue α) : Bool × BoundedQueue α :=
  if q.shutdown ∨ q.queue.length ≥ q.capacity then (false, q)
  else (true, { q with queue := q.queue ++ [item] })

/-- `Pop`, or `none` while it waits for an item. -/
def pop (q : BoundedQueue α) : Option (Option α × BoundedQueue α) :=
  match q.queue with
  | item :: items => some (some item, { q with queue := items })
  | [] => if q.shutdown then some (none, q) else none

def tryPop (q : BoundedQueue α) : Option α × BoundedQueue α :=
  match q.queue with
  | [] => (none, q)
  | item :: items => (some item, { q with queue := items })

/-- `Shutdown`, under which all calls that wait wake up. -/
def shutDown (q : BoundedQueue α) : BoundedQueue α := { q with shutdown := true }

section Calls

variable {item : α} {q q' : BoundedQueue α}

theorem push_eq_some {b : Bool} (h : q.push item = some (b, q')) : b = false ∧ q' = q ∨
    b = true ∧ q.shutdown = false ∧ q.queue.length < q.capacity ∧
      q' = { q with queue := q.queue ++ [item] } := by
  unfold push at h
  split at h
  · cases h
    exact .inl ⟨rfl, rfl⟩
  · rename_i hopen
    split at h
    · rename_i hroom
      cases h
      exact .inr ⟨rfl, by simpa using hopen, hroom, rfl⟩
    · cases h

theorem pop_eq_some {r : Option α} (h : q.pop = some (r, q')) :
    r = none ∧ q.queue = [] ∧ q.shutdown = true ∧ q' = q ∨
      ∃ x xs, r = some x ∧ q.queue = x :: xs ∧ q' = { q with queue := xs } := by
  unfold pop at h
  split at h
  · rename_i x xs hq
    cases h
    exact .inr ⟨x, xs, rfl, hq, rfl⟩
  · rename_i hq
    split at h
    · rename_i hclosed
      cases h
      exact .inl ⟨rfl, hq, hclosed, rfl⟩
    · cases h

end Calls

end BoundedQueue

/-- The calls of a queue, each of them under its lock. -/
inductive QueueCall (α : Type)
  | push (item : α)
  | tryPush (item : α)
  | pop
  | tryPop
  | shutdown
  deriving DecidableEq, Repr

namespace QueueCall

open Interleaving Machine

variable {α : Type}

@[reducible] def Reply : QueueCall α → Type
  | push _ => Bool
  | tryPush _ => Bool
  | pop => Option α
  | tryPop => Option α
  | shutdown => Unit

/-- The call when it has the lock; `none` if it has to wait. -/
def exec : (c : QueueCall α) → BoundedQueue α → Option (c.Reply × BoundedQueue α)
  | push item, q => q.push item
  | tryPush item, q => some (q.tryPush item)
  | pop, q => q.pop
  | tryPop, q => some q.tryPop
  | shutdown, q => some ((), q.shutDown)

def waitsFor (q : BoundedQueue α) : QueueCall α → Prop
  | push _ => q.queue.length < q.capacity ∨ q.shutdown = true
  | pop => q.queue ≠ [] ∨ q.shutdown = true
  | _ => True

abbrev run (capacity : ℕ) (acts : List (Monitor.Action (QueueCall α))) :
    Option (Monitor (BoundedQueue α) (QueueCall α) Reply) :=
  Machine.run (Monitor.step exec) { state := { capacity } } acts

def accepted? : Done (QueueCall α) Reply → Option α
  | ⟨push item, true⟩ => some item
  | ⟨tryPush item, true⟩ => some item
  | _ => none

def popped? : Done (QueueCall α) Reply → Option α
  | ⟨pop, item⟩ => item
  | ⟨tryPop, item⟩ => item
  | _ => none

def isShutdown : Done (QueueCall α) Reply → Bool
  | ⟨shutdown, _⟩ => true
  | _ => false

def accepted (history : List (Done (QueueCall α) Reply)) : List α := history.filterMap accepted?

def popped (history : List (Done (QueueCall α) Reply)) : List α := history.filterMap popped?

@[simp] theorem accepted_snoc (history : List (Done (QueueCall α) Reply))
    (d : Done (QueueCall α) Reply) :
    accepted (history ++ [d]) = accepted history ++ (accepted? d).toList := by
  rw [accepted, List.filterMap_append]
  cases hd : accepted? d <;> simp [accepted, hd]

@[simp] theorem popped_snoc (history : List (Done (QueueCall α) Reply))
    (d : Done (QueueCall α) Reply) :
    popped (history ++ [d]) = popped history ++ (popped? d).toList := by
  rw [popped, List.filterMap_append]
  cases hd : popped? d <;> simp [popped, hd]

/-- What a call does to the queue: it appends an item, takes the first one, does nothing, or closes
the queue. -/
inductive Effect (q : BoundedQueue α) (d : Done (QueueCall α) Reply) : BoundedQueue α → Prop
  | append {x : α} (ha : accepted? d = some x) (hp : popped? d = none) (hs : isShutdown d = false)
      (hopen : q.shutdown = false) (hroom : q.queue.length < q.capacity) :
      Effect q d { q with queue := q.queue ++ [x] }
  | take {x : α} {xs : List α} (ha : accepted? d = none) (hp : popped? d = some x)
      (hs : isShutdown d = false) (hq : q.queue = x :: xs) : Effect q d { q with queue := xs }
  | nothing (ha : accepted? d = none) (hp : popped? d = none) (hs : isShutdown d = false) :
      Effect q d q
  | close (ha : accepted? d = none) (hp : popped? d = none) (hs : isShutdown d = true) :
      Effect q d q.shutDown

section Exec

variable {c : QueueCall α} {q q' : BoundedQueue α}

theorem isSome_exec_iff : (c.exec q).isSome ↔ c.waitsFor q := by
  cases c with
  | push item => simp only [exec, BoundedQueue.push, waitsFor]; grind
  | pop => simp only [exec, BoundedQueue.pop, waitsFor]; grind
  | _ => exact iff_of_true rfl trivial

/-- A second item has to wait for room. -/
example : run 1 [.call (.push 1), .call (.push 2), .proceed 0, .proceed 1] = none := rfl

theorem exec_effect {r : c.Reply} (h : c.exec q = some (r, q')) : Effect q ⟨c, r⟩ q' := by
  cases c with
  | push item =>
    rcases BoundedQueue.push_eq_some h with ⟨rfl, rfl⟩ | ⟨rfl, hopen, hroom, rfl⟩
    · exact .nothing rfl rfl rfl
    · exact .append rfl rfl rfl hopen hroom
  | tryPush item =>
    simp only [exec, BoundedQueue.tryPush] at h
    split at h
    · cases h
      exact .nothing rfl rfl rfl
    · rename_i hok
      cases h
      obtain ⟨hopen, hroom⟩ := not_or.mp hok
      exact .append rfl rfl rfl (by simpa using hopen) (Nat.lt_of_not_le hroom)
  | pop =>
    rcases BoundedQueue.pop_eq_some h with ⟨rfl, -, -, rfl⟩ | ⟨x, xs, rfl, hq, rfl⟩
    · exact .nothing rfl rfl rfl
    · exact .take rfl rfl rfl hq
  | tryPop =>
    simp only [exec, BoundedQueue.tryPop] at h
    split at h
    · cases h
      exact .nothing rfl rfl rfl
    · rename_i hq
      cases h
      exact .take rfl rfl rfl hq
  | shutdown =>
    cases h
    exact .close rfl rfl rfl

end Exec

section Runs

variable {capacity : ℕ} {q q' : BoundedQueue α} {history : List (Done (QueueCall α) Reply)}

/-- How the queue and the calls that have returned belong together. -/
structure Inv (capacity : ℕ) (q : BoundedQueue α) (history : List (Done (QueueCall α) Reply)) :
    Prop where
  capacity_eq : q.capacity = capacity
  size_le : q.queue.length ≤ capacity
  fifo : popped history ++ q.queue = accepted history
  closed : q.shutdown = history.any isShutdown
  refused : Always (fun before d => (accepted? d).isSome → ¬ before.any isShutdown) history

theorem inv_empty : Inv capacity ({ capacity } : BoundedQueue α) [] where
  capacity_eq := rfl
  size_le := Nat.zero_le _
  fifo := rfl
  closed := rfl
  refused := always_nil

theorem Inv.effect {d : Done (QueueCall α) Reply} (h : Inv capacity q history)
    (he : Effect q d q') : Inv capacity q' (history ++ [d]) := by
  cases he with
  | @append x ha hp hs hopen hroom =>
    refine ⟨h.capacity_eq, ?_, ?_, ?_, always_snoc.mpr ⟨h.refused, fun _ => ?_⟩⟩
    · rw [List.length_append, List.length_singleton, ← h.capacity_eq]
      exact hroom
    · simp [ha, hp, ← h.fifo]
    · simp [hs, h.closed]
    · rw [← h.closed, hopen]
      exact Bool.false_ne_true
  | @take x xs ha hp hs hq =>
    have hsize := h.size_le
    have hfifo := h.fifo
    rw [hq] at hsize hfifo
    refine ⟨h.capacity_eq, Nat.le_of_succ_le hsize, ?_, ?_, always_snoc.mpr ⟨h.refused, ?_⟩⟩
    · simpa [ha, hp] using hfifo
    · simp [hs, h.closed]
    · simp [ha]
  | nothing ha hp hs =>
    refine ⟨h.capacity_eq, h.size_le, ?_, ?_, always_snoc.mpr ⟨h.refused, ?_⟩⟩
    · simpa [ha, hp] using h.fifo
    · simp [hs, h.closed]
    · simp [ha]
  | close ha hp hs =>
    refine ⟨h.capacity_eq, h.size_le, ?_, ?_, always_snoc.mpr ⟨h.refused, ?_⟩⟩
    · simpa [ha, hp, BoundedQueue.shutDown] using h.fifo
    · simp [hs, BoundedQueue.shutDown]
    · simp [ha]

variable {acts : List (Monitor.Action (QueueCall α))}
  {m : Monitor (BoundedQueue α) (QueueCall α) Reply}

theorem inv_run (hrun : run capacity acts = some m) : Inv capacity m.state m.history :=
  Monitor.run_history (fun _ _ _ _ _ h he => h.effect (exec_effect he)) inv_empty hrun

/-- Once the queue is shut down, no call waits any more. -/
theorem isSome_proceed_of_shutdown (hrun : run capacity acts = some m)
    (hshut : m.history.any isShutdown) {i : ℕ} {c : QueueCall α}
    (hc : m.calls[i]? = some (.waiting c)) : (Monitor.step exec m (.proceed i)).isSome := by
  have hclosed : m.state.shutdown = true := (inv_run hrun).closed.trans hshut
  rw [Monitor.isSome_step_proceed hc, isSome_exec_iff]
  cases c with
  | push item => exact .inr hclosed
  | pop => exact .inr hclosed
  | _ => trivial

theorem drained_of_pop_none {m' : Monitor (BoundedQueue α) (QueueCall α) Reply} {i : ℕ}
    (h : Monitor.step exec m (.proceed i) = some m')
    (hnone : m'.calls[i]? = some (.returned ⟨pop, none⟩)) :
    m.state.queue = [] ∧ m.state.shutdown = true := by
  obtain ⟨c, r, q, hc, he, rfl⟩ := Monitor.step_proceed_eq_some h
  have hi := (List.getElem?_eq_some_iff.mp hc).1
  rw [List.getElem?_set_self hi] at hnone
  cases hnone
  rcases BoundedQueue.pop_eq_some he with ⟨-, hq, hclosed, -⟩ | ⟨x, xs, hx, -⟩
  · exact ⟨hq, hclosed⟩
  · cases hx

end Runs

/-- However the calls interleave, the size is within the capacity, the items popped so far and the
content are together the accepted items in their order, none is accepted after a `Shutdown`, and a
`Pop` returns nothing only from a queue that is empty and shut down. -/
theorem bounded_fifo (capacity : ℕ) (acts : List (Monitor.Action (QueueCall α)))
    {m : Monitor (BoundedQueue α) (QueueCall α) Reply} (hrun : run capacity acts = some m) :
    m.state.queue.length ≤ capacity ∧
    popped m.history ++ m.state.queue = accepted m.history ∧
    Always (fun before d => (accepted? d).isSome → ¬ before.any isShutdown) m.history ∧
    ∀ i m', Monitor.step exec m (.proceed i) = some m' →
      m'.calls[i]? = some (.returned ⟨pop, none⟩) →
        m.state.queue = [] ∧ m.state.shutdown = true := by
  have hinv := inv_run hrun
  exact ⟨hinv.size_le, hinv.fifo, hinv.refused, fun i m' => drained_of_pop_none⟩

/-- Two items go through a queue with room for one, which is then shut down; the last `Pop` comes
too late. -/
def handOver : List (Monitor.Action (QueueCall ℕ)) :=
  [.call (.push 1), .call (.push 2), .call .pop, .proceed 0, .proceed 2, .proceed 1,
    .call .shutdown, .call .pop, .proceed 3, .proceed 4, .call .pop]

theorem handOver_fifo : ∃ m, run 1 handOver = some m ∧ popped m.history = [1, 2] ∧
    popped m.history ++ m.state.queue = accepted m.history ∧
    ∃ m', Monitor.step exec m (.proceed 5) = some m' ∧
      m'.calls[5]? = some (.returned ⟨pop, none⟩) ∧ m.state.queue = [] := by
  have hrun : run 1 handOver = some _ := rfl
  obtain ⟨-, hfifo, -, hnone⟩ := bounded_fifo 1 handOver hrun
  exact ⟨_, hrun, rfl, hfifo, _, rfl, rfl, (hnone 5 _ rfl rfl).1⟩

end QueueCall

end VoxServer
