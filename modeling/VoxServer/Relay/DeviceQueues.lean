import VoxServer.Common.ShardMap
import VoxServer.Interleaving.Sequential
import VoxServer.Relay.DeliveryManager

/-! # The queues of the delivery manager

The delivery manager keeps the address of a queue for each device in a map in shards, and
creates the queue when the first envelope comes. Other calls leave a device that has no
queue alone. Seen from outside each device has one bounded list of its own.
-/

namespace VoxServer.DeviceQueues

open Interleaving

/-- The server with the queues as they are kept: the map to their addresses, and the queues by
address. The queues of `rest` are not used. -/
structure Manager where
  rest : Server := {}
  queues : ShardMap String ℕ := {}
  heap : List (List QueuedEnvelope) := []

namespace Manager

variable (hash : String → UInt64) (maxQueuePerDevice : ℕ)

def pending (address : ℕ) (m : Manager) : List QueuedEnvelope := (m.heap[address]?).getD []

def setPending (address : ℕ) (pending : List QueuedEnvelope) (m : Manager) : Manager :=
  { m with heap := m.heap.set address pending }

/-- The address of the queue, which is created where there is none. -/
def getOrCreateQueue (userId : UserId) (deviceId : DeviceId) (m : Manager) : ℕ × Manager :=
  let key := deviceScopeKey userId deviceId
  let r := m.queues.withShard hash key fun map =>
    match map key with
    | none => ((m.heap.length, m.heap ++ [[]]), Function.update map key (some m.heap.length))
    | some address => ((address, m.heap), map)
  (r.1.1, { m with queues := r.2, heap := r.1.2 })

def enqueue (userId : UserId) (deviceId : DeviceId) (envelope : QueuedEnvelope) (m : Manager) :
    VoidResult × Manager :=
  let key := deviceScopeKey userId deviceId
  let (queue, m) := getOrCreateQueue hash userId deviceId m
  if (m.pending queue).length ≥ maxQueuePerDevice then
    (.error ⟨.queueFull, "Device queue full, use offline delivery"⟩, m)
  else
    let m := m.setPending queue (m.pending queue ++ [envelope])
    (.ok (), { m with rest := WsPushRegistry.notify key (.envelope envelope) m.rest })

def dequeue (userId : UserId) (deviceId : DeviceId) (maxCount : ℕ) (m : Manager) :
    List QueuedEnvelope × Manager :=
  match m.queues.find hash (deviceScopeKey userId deviceId) with
  | none => ([], m)
  | some queue =>
    let count := min maxCount (m.pending queue).length
    ((m.pending queue).take count, m.setPending queue ((m.pending queue).drop count))

def switchToOffline (userId : UserId) (deviceId : DeviceId) (m : Manager) : Manager :=
  match m.queues.find hash (deviceScopeKey userId deviceId) with
  | none => m
  | some queue =>
    let db :=
      DeliveryManager.persistPending userId deviceId m.rest.clock (m.pending queue) m.rest.db
    { m.setPending queue [] with rest := { m.rest with db } }

def queueSize (userId : UserId) (deviceId : DeviceId) (m : Manager) : ℕ :=
  match m.queues.find hash (deviceScopeKey userId deviceId) with
  | none => 0
  | some queue => (m.pending queue).length

/-- The envelopes of other conversations come first, in their order, and the rest is erased. -/
def purgeConversationFromDeviceQueue (conversationId : ConversationId) (userId : UserId)
    (deviceId : DeviceId) (m : Manager) : Manager :=
  match m.queues.find hash (deviceScopeKey userId deviceId) with
  | none => m
  | some queue =>
    let parts := (m.pending queue).partition (·.conversationId ≠ conversationId)
    m.setPending queue ((parts.1 ++ parts.2).take parts.1.length)

def exec : (c : DeliveryCall) → Manager → c.Reply × Manager
  | .enqueue u d q, m => m.enqueue hash maxQueuePerDevice u d q
  | .dequeue u d n, m => m.dequeue hash u d n
  | .switchToOffline u d, m => ((), m.switchToOffline hash u d)
  | .queueSize u d, m => (m.queueSize hash u d, m)
  | .purgeConversationFromDeviceQueue c u d, m =>
    ((), m.purgeConversationFromDeviceQueue hash c u d)

def queueOf (m : Manager) (key : String) : List QueuedEnvelope :=
  ((m.queues.find hash key).map m.pending).getD []

def server (m : Manager) : Server := { m.rest with queues := m.queueOf hash }

/-- Every address is that of a queue, and no two keys share one. -/
structure Linked (m : Manager) : Prop where
  lt_length : ∀ key queue, m.queues.find hash key = some queue → queue < m.heap.length
  unshared : ∀ key key' queue, m.queues.find hash key = some queue →
    m.queues.find hash key' = some queue → key = key'

section Linked

variable {hash} {m : Manager} {u : UserId} {d : DeviceId} {key : String} {queue : ℕ}

theorem linked_empty (rest : Server) : Linked hash { rest } where
  lt_length _ _ h := by cases h
  unshared _ _ _ h := by cases h

theorem queueOf_eq (h : m.queues.find hash key = some queue) :
    m.queueOf hash key = m.pending queue := by
  simp [queueOf, h]

theorem queueOf_of_none (h : m.queues.find hash key = none) : m.queueOf hash key = [] := by
  simp [queueOf, h]

theorem Linked.setPending (hm : Linked hash m) (pending : List QueuedEnvelope) :
    Linked hash (m.setPending queue pending) where
  lt_length k q h := by simpa [Manager.setPending] using hm.lt_length k q h
  unshared := hm.unshared

theorem Linked.withRest (hm : Linked hash m) (rest : Server) : Linked hash { m with rest } :=
  ⟨hm.lt_length, hm.unshared⟩

theorem Linked.queueOf_setPending (hm : Linked hash m) (h : m.queues.find hash key = some queue)
    (pending : List QueuedEnvelope) :
    (m.setPending queue pending).queueOf hash = Function.update (m.queueOf hash) key pending := by
  funext key'
  by_cases hkey : key' = key
  · subst hkey
    rw [Function.update_self, queueOf_eq (m := m.setPending queue pending) h, Manager.pending,
      Manager.setPending, List.getElem?_set_self (hm.lt_length _ _ h), Option.getD_some]
  · rw [Function.update_of_ne hkey]
    cases hfind : m.queues.find hash key' with
    | none => rw [queueOf_of_none hfind, queueOf_of_none (m := m.setPending queue pending) hfind]
    | some queue' =>
      have hne : queue ≠ queue' := by
        rintro rfl
        exact hkey (hm.unshared _ _ _ hfind h)
      rw [queueOf_eq hfind, queueOf_eq (m := m.setPending queue pending) hfind, Manager.pending,
        Manager.pending, Manager.setPending, List.getElem?_set_ne hne]

theorem getOrCreateQueue_of_some (h : m.queues.find hash (deviceScopeKey u d) = some queue) :
    m.getOrCreateQueue hash u d = (queue, m) := by
  have hmap : m.queues.shards (ShardMap.getShard hash (deviceScopeKey u d)) (deviceScopeKey u d) =
      some queue := h
  simp [getOrCreateQueue, ShardMap.withShard, hmap]

theorem getOrCreateQueue_of_none (h : m.queues.find hash (deviceScopeKey u d) = none) :
    (m.getOrCreateQueue hash u d).1 = m.heap.length ∧
      (m.getOrCreateQueue hash u d).2.rest = m.rest ∧
      (m.getOrCreateQueue hash u d).2.heap = m.heap ++ [[]] ∧
      ∀ key, (m.getOrCreateQueue hash u d).2.queues.find hash key =
        if key = deviceScopeKey u d then some m.heap.length else m.queues.find hash key := by
  have hmap : m.queues.shards (ShardMap.getShard hash (deviceScopeKey u d)) (deviceScopeKey u d) =
      none := h
  refine ⟨by simp [getOrCreateQueue, ShardMap.withShard, hmap], rfl,
    by simp [getOrCreateQueue, ShardMap.withShard, hmap], fun key => ?_⟩
  dsimp only [getOrCreateQueue]
  rw [ShardMap.find_withShard, hmap]
  by_cases hkey : key = deviceScopeKey u d
  · subst hkey
    simp
  · rw [if_neg hkey]
    split
    · rename_i hshard
      simp [Function.update_of_ne hkey, ShardMap.find, hshard]
    · rfl

theorem Linked.of_new (hm : Linked hash m) {m' : Manager} (hheap : m'.heap = m.heap ++ [[]])
    (hfind : ∀ key', m'.queues.find hash key' =
      if key' = key then some m.heap.length else m.queues.find hash key') : Linked hash m' where
  lt_length key queue hq := by
    rw [hfind] at hq
    rw [hheap, List.length_append, List.length_singleton]
    split at hq
    · cases hq
      exact Nat.lt_succ_self _
    · exact Nat.lt_succ_of_lt (hm.lt_length key queue hq)
  unshared key key' queue hq hq' := by
    rw [hfind] at hq hq'
    split at hq <;> split at hq'
    · rename_i hkey hkey'
      exact hkey.trans hkey'.symm
    · cases hq
      exact absurd (hm.lt_length key' _ hq') (lt_irrefl _)
    · cases hq'
      exact absurd (hm.lt_length key _ hq) (lt_irrefl _)
    · exact hm.unshared key key' queue hq hq'

theorem Linked.queueOf_of_new (hm : Linked hash m) (hnone : m.queues.find hash key = none)
    {m' : Manager} (hheap : m'.heap = m.heap ++ [[]])
    (hfind : ∀ key', m'.queues.find hash key' =
      if key' = key then some m.heap.length else m.queues.find hash key') :
    m'.queueOf hash = m.queueOf hash := by
  funext key'
  by_cases hkey : key' = key
  · subst hkey
    have hsome : m'.queues.find hash key' = some m.heap.length := by
      rw [hfind, if_pos rfl]
    rw [queueOf_eq hsome, queueOf_of_none hnone, pending, hheap]
    simp
  · have hsame : m'.queues.find hash key' = m.queues.find hash key' := by
      rw [hfind, if_neg hkey]
    cases hq : m.queues.find hash key' with
    | none => rw [queueOf_of_none hq, queueOf_of_none (hsame.trans hq)]
    | some queue =>
      rw [queueOf_eq hq, queueOf_eq (hsame.trans hq), pending, pending, hheap,
        List.getElem?_append_left (hm.lt_length key' queue hq)]

theorem Linked.getOrCreateQueue (hm : Linked hash m) :
    Linked hash (m.getOrCreateQueue hash u d).2 ∧
      (m.getOrCreateQueue hash u d).2.queues.find hash (deviceScopeKey u d) =
        some (m.getOrCreateQueue hash u d).1 ∧
      (m.getOrCreateQueue hash u d).2.queueOf hash = m.queueOf hash ∧
      (m.getOrCreateQueue hash u d).2.rest = m.rest := by
  cases h : m.queues.find hash (deviceScopeKey u d) with
  | some queue =>
    rw [getOrCreateQueue_of_some h]
    exact ⟨hm, h, rfl, rfl⟩
  | none =>
    obtain ⟨haddress, hrest, hheap, hfind⟩ := getOrCreateQueue_of_none h
    refine ⟨hm.of_new hheap hfind, ?_, hm.queueOf_of_new h hheap hfind, hrest⟩
    rw [hfind, if_pos rfl, haddress]

end Linked

section Refinement

variable {hash} {maxQueuePerDevice} {m : Manager} {u : UserId} {d : DeviceId}

theorem server_setPending (hm : Linked hash m) {queue : ℕ} {key : String}
    (h : m.queues.find hash key = some queue) (pending : List QueuedEnvelope) :
    (m.setPending queue pending).server hash =
      DeliveryManager.setQueue key pending (m.server hash) := by
  rw [server, hm.queueOf_setPending h]
  rfl

theorem notify_queues (key : String) (message : PushMessage) (s : Server)
    (queues : String → List QueuedEnvelope) :
    WsPushRegistry.notify key message { s with queues } =
      { WsPushRegistry.notify key message s with queues } := by
  unfold WsPushRegistry.notify
  cases s.senders key with
  | none => rfl
  | some connection => rfl

theorem server_queues_of_none {key : String} (h : m.queues.find hash key = none) :
    (m.server hash).queues key = [] := queueOf_of_none h

theorem setQueue_nil_of_none {key : String} (h : m.queues.find hash key = none) :
    DeliveryManager.setQueue key [] (m.server hash) = m.server hash := by
  rw [DeliveryManager.setQueue, ← server_queues_of_none h, Function.update_eq_self]

theorem server_queues_of_some {key : String} {queue : ℕ} (h : m.queues.find hash key = some queue) :
    (m.server hash).queues key = m.pending queue := queueOf_eq h

theorem enqueue_refines (hm : Linked hash m) (q : QueuedEnvelope) :
    Linked hash (m.enqueue hash maxQueuePerDevice u d q).2 ∧
      DeliveryManager.enqueue maxQueuePerDevice u d q (m.server hash) =
        ((m.enqueue hash maxQueuePerDevice u d q).1,
          (m.enqueue hash maxQueuePerDevice u d q).2.server hash) := by
  obtain ⟨hlinked, hfind, hqueues, hrest⟩ := hm.getOrCreateQueue (u := u) (d := d)
  have hserver : (m.getOrCreateQueue hash u d).2.server hash = m.server hash := by
    rw [server, hqueues, hrest, server]
  unfold enqueue DeliveryManager.enqueue
  generalize m.getOrCreateQueue hash u d = r at hlinked hfind hserver ⊢
  rw [← hserver]
  dsimp only
  rw [server_queues_of_some hfind]
  split
  · exact ⟨hlinked, rfl⟩
  · constructor
    · exact (hlinked.setPending (r.2.pending r.1 ++ [q])).withRest _
    · rw [← server_setPending hlinked hfind, server, notify_queues]
      rfl

theorem dequeue_refines (hm : Linked hash m) (n : ℕ) :
    Linked hash (m.dequeue hash u d n).2 ∧ DeliveryManager.dequeue u d n (m.server hash) =
      ((m.dequeue hash u d n).1, (m.dequeue hash u d n).2.server hash) := by
  unfold dequeue DeliveryManager.dequeue
  cases h : m.queues.find hash (deviceScopeKey u d) with
  | none =>
    refine ⟨hm, ?_⟩
    dsimp only
    rw [server_queues_of_none h, List.take_nil, List.drop_nil, setQueue_nil_of_none h]
  | some queue =>
    dsimp only
    rw [server_queues_of_some h, server_setPending hm h]
    exact ⟨hm.setPending _, rfl⟩

theorem switchToOffline_refines (hm : Linked hash m) :
    Linked hash (m.switchToOffline hash u d) ∧
      DeliveryManager.switchToOffline u d (m.server hash) =
        (m.switchToOffline hash u d).server hash := by
  unfold switchToOffline DeliveryManager.switchToOffline
  cases h : m.queues.find hash (deviceScopeKey u d) with
  | none =>
    refine ⟨hm, ?_⟩
    dsimp only
    rw [server_queues_of_none h]
    exact setQueue_nil_of_none h
  | some queue =>
    constructor
    · exact (hm.setPending []).withRest _
    · dsimp only
      rw [server_queues_of_some h]
      dsimp only [DeliveryManager.setQueue, server]
      rw [← hm.queueOf_setPending h]
      rfl

theorem purge_refines (hm : Linked hash m) (c : ConversationId) :
    Linked hash (m.purgeConversationFromDeviceQueue hash c u d) ∧
      DeliveryManager.purgeConversationFromDeviceQueue c u d (m.server hash) =
        (m.purgeConversationFromDeviceQueue hash c u d).server hash := by
  unfold purgeConversationFromDeviceQueue DeliveryManager.purgeConversationFromDeviceQueue
  cases h : m.queues.find hash (deviceScopeKey u d) with
  | none =>
    refine ⟨hm, ?_⟩
    dsimp only
    rw [server_queues_of_none h]
    exact setQueue_nil_of_none h
  | some queue =>
    constructor
    · exact hm.setPending _
    · dsimp only
      rw [server_queues_of_some h, server_setPending hm h, List.take_left,
        List.partition_eq_filter_filter]

theorem queueSize_refines :
    DeliveryManager.queueSize u d (m.server hash) = m.queueSize hash u d := by
  unfold queueSize DeliveryManager.queueSize
  cases h : m.queues.find hash (deviceScopeKey u d) with
  | none => rw [server_queues_of_none h]; rfl
  | some queue => rw [server_queues_of_some h]

/-- Each call does what the call on the server as others see it does. -/
theorem exec_refines (hm : Linked hash m) (c : DeliveryCall) :
    Linked hash (exec hash maxQueuePerDevice c m).2 ∧
      c.exec maxQueuePerDevice (m.server hash) = ((exec hash maxQueuePerDevice c m).1,
        (exec hash maxQueuePerDevice c m).2.server hash) := by
  cases c with
  | enqueue u d q => exact enqueue_refines hm q
  | dequeue u d n => exact dequeue_refines hm n
  | switchToOffline u d =>
    obtain ⟨hlinked, he⟩ := switchToOffline_refines (u := u) (d := d) hm
    exact ⟨hlinked, Prod.ext rfl he⟩
  | queueSize u d => exact ⟨hm, Prod.ext queueSize_refines rfl⟩
  | purgeConversationFromDeviceQueue c u d =>
    obtain ⟨hlinked, he⟩ := purge_refines (u := u) (d := d) hm c
    exact ⟨hlinked, Prod.ext rfl he⟩

end Refinement

end Manager

def device : DeliveryCall → UserId × DeviceId
  | .enqueue u d _ => (u, d)
  | .dequeue u d _ => (u, d)
  | .switchToOffline u d => (u, d)
  | .queueSize u d => (u, d)
  | .purgeConversationFromDeviceQueue _ u d => (u, d)

def key (c : DeliveryCall) : String := deviceScopeKey (device c).1 (device c).2

/-- The calls on one list that is kept for a single device. -/
def fifo (maxQueuePerDevice : ℕ) :
    (c : DeliveryCall) → List QueuedEnvelope → c.Reply × List QueuedEnvelope
  | .enqueue _ _ q, pending =>
    if pending.length ≥ maxQueuePerDevice then
      (.error ⟨.queueFull, "Device queue full, use offline delivery"⟩, pending)
    else (.ok (), pending ++ [q])
  | .dequeue _ _ n, pending => (pending.take n, pending.drop n)
  | .switchToOffline _ _, _ => ((), [])
  | .queueSize _ _, pending => (pending.length, pending)
  | .purgeConversationFromDeviceQueue c _ _, pending =>
    ((), pending.filter (·.conversationId ≠ c))

/-- A call does to the queue of its key what it does to a single list, and leaves the other queues
as they are. -/
theorem exec_fifo (maxQueuePerDevice : ℕ) (c : DeliveryCall) (s : Server) :
    (c.exec maxQueuePerDevice s).1 = (fifo maxQueuePerDevice c (s.queues (key c))).1 ∧
      (c.exec maxQueuePerDevice s).2.queues = Function.update s.queues (key c)
        (fifo maxQueuePerDevice c (s.queues (key c))).2 := by
  cases c with
  | enqueue u d q =>
    have hkey : key (.enqueue u d q) = deviceScopeKey u d := rfl
    rw [hkey, DeliveryCall.exec, DeliveryManager.enqueue]
    by_cases hfull : (s.queues (deviceScopeKey u d)).length ≥ maxQueuePerDevice
    · have hfifo : fifo maxQueuePerDevice (.enqueue u d q) (s.queues (deviceScopeKey u d)) =
          (.error ⟨.queueFull, "Device queue full, use offline delivery"⟩, _) := if_pos hfull
      rw [if_pos hfull, hfifo]
      exact ⟨rfl, (Function.update_eq_self _ _).symm⟩
    · have hfifo : fifo maxQueuePerDevice (.enqueue u d q) (s.queues (deviceScopeKey u d)) =
          (.ok (), s.queues (deviceScopeKey u d) ++ [q]) := if_neg hfull
      rw [if_neg hfull, hfifo]
      constructor
      · rfl
      · unfold WsPushRegistry.notify
        split <;> rfl
  | dequeue u d n =>
    simp only [DeliveryCall.exec, fifo, DeliveryManager.dequeue, DeliveryManager.setQueue, key,
      device]
    constructor
    · exact (List.take_eq_take_min ..).symm
    · rw [← List.drop_eq_drop_min]
  | switchToOffline u d => exact ⟨rfl, rfl⟩
  | queueSize u d => exact ⟨rfl, (Function.update_eq_self _ _).symm⟩
  | purgeConversationFromDeviceQueue c u d => exact ⟨rfl, rfl⟩

/-- The replies to the calls for a device are those of one list that is kept for it alone, whatever
the hash function and whatever is called for other devices. -/
theorem replies_of_device (hash : String → UInt64) (maxQueuePerDevice : ℕ) (rest : Server)
    {calls : List DeliveryCall} (hcalls : ∀ c ∈ calls, kSep ∉ (device c).1.toList) {u : UserId}
    (hu : kSep ∉ u.toList) (d : DeviceId) :
    (replies (Manager.exec hash maxQueuePerDevice) { rest } calls).filter
        (device ·.op = (u, d)) =
      replies (fifo maxQueuePerDevice) [] (calls.filter (device · = (u, d))) := by
  apply filter_replies (fun m => m.queueOf hash (deviceScopeKey u d)) (device · = (u, d))
    (I := Manager.Linked hash) (P := fun c => kSep ∉ (device c).1.toList)
  · intro c m _ hm
    exact (Manager.exec_refines hm c).1
  · intro c m _ hm hown
    obtain ⟨hreply, hqueue⟩ := exec_fifo maxQueuePerDevice c (m.server hash)
    rw [(Manager.exec_refines hm c).2] at hreply hqueue
    have hkey : key c = deviceScopeKey u d := by rw [key, hown]
    rw [hkey] at hreply hqueue
    exact ⟨hreply, (congrFun hqueue (deviceScopeKey u d)).trans (Function.update_self ..)⟩
  · intro c m hc hm hother
    have hqueue := (exec_fifo maxQueuePerDevice c (m.server hash)).2
    rw [(Manager.exec_refines hm c).2] at hqueue
    have hkey : deviceScopeKey u d ≠ key c := by
      intro heq
      obtain ⟨h₁, h₂⟩ := (deviceScopeKey_inj hu hc).mp heq
      exact hother (Prod.ext h₁.symm h₂.symm)
    exact (congrFun hqueue (deviceScopeKey u d)).trans (Function.update_of_ne hkey ..)
  · exact hcalls
  · exact Manager.linked_empty rest

/-- Two devices whose keys share a shard, with room for one envelope each: the second envelope for
the first device is refused, and that for the other device is not. -/
def sharedShard : List DeliveryCall :=
  [.enqueue "u" "d" ⟨"e1", "c", "s", "x", "", 0, 0, none⟩,
    .enqueue "u" "other" ⟨"e2", "c", "s", "x", "", 0, 0, none⟩,
    .enqueue "u" "d" ⟨"e3", "c", "s", "x", "", 0, 0, none⟩, .queueSize "u" "other",
    .dequeue "u" "d" 5]

theorem replies_of_device_sharedShard :
    (∀ c ∈ sharedShard, kSep ∉ (device c).1.toList) ∧ kSep ∉ "u".toList ∧
      (replies (Manager.exec (fun _ => 0) 1) {} sharedShard).filter (device ·.op = ("u", "d")) =
        replies (fifo 1) [] (sharedShard.filter (device · = ("u", "d"))) :=
  ⟨by decide, by decide, replies_of_device (fun _ => 0) 1 {} (by decide) (by decide) "d"⟩

end VoxServer.DeviceQueues
