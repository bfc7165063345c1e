import Mathlib.Logic.Function.Basic
import VoxServer.Store.Envelope

/-! # Device queues and the push registry

Envelopes for a device wait in a bounded queue in memory, and each one that is
queued is also pushed to the WebSocket connection registered for the device, if
there is one. Queues and connections are keyed by user and device together.
-/

namespace VoxServer

structure QueuedEnvelope where
  envelopeId : EnvelopeId
  conversationId : ConversationId
  senderUserId : UserId
  senderDeviceId : DeviceId
  ciphertext : String
  serverTimestamp : Timestamp
  envelopeType : ℤ := 0
  orderingEpoch : Option ℤ := none
  deriving DecidableEq, Repr

/-- What is sent to a connection: a queued envelope, or the text of another event. -/
inductive PushMessage
  | envelope (q : QueuedEnvelope)
  | event (json : String)
  deriving DecidableEq, Repr

/-- A message handed to the connection that was registered under the key. -/
structure Push where
  key : String
  connection : ℕ
  message : PushMessage
  deriving DecidableEq, Repr

/-- The database, the memory of the server, what it has pushed, the files and the system clock. -/
structure Server where
  db : Database := {}
  /-- The queue of each device; a device without a queue has an empty one. -/
  queues : String → List QueuedEnvelope := fun _ => []
  /-- The connection registered for each device. -/
  senders : String → Option ℕ := fun _ => none
  pushed : List Push := []
  /-- The blob files by their path, each with its bytes. -/
  blobs : String → Option String := fun _ => none
  clock : Timestamp := 0

namespace WsPushRegistry

def register (key : String) (connection : ℕ) (s : Server) : Server :=
  { s with senders := Function.update s.senders key (some connection) }

def unregister (key : String) (s : Server) : Server :=
  { s with senders := Function.update s.senders key none }

def notify (key : String) (message : PushMessage) (s : Server) : Server :=
  match s.senders key with
  | none => s
  | some connection => { s with pushed := s.pushed ++ [⟨key, connection, message⟩] }

end WsPushRegistry

namespace DeliveryManager

def setQueue (key : String) (pending : List QueuedEnvelope) (s : Server) : Server :=
  { s with queues := Function.update s.queues key pending }

/-- Queues the envelope and pushes it, which is what the hook of the server does. -/
def enqueue (maxQueuePerDevice : ℕ) (userId : UserId) (deviceId : DeviceId)
    (envelope : QueuedEnvelope) (s : Server) : VoidResult × Server :=
  let key := deviceScopeKey userId deviceId
  if (s.queues key).length ≥ maxQueuePerDevice then
    (.error ⟨.queueFull, "Device queue full, use offline delivery"⟩, s)
  else
    (.ok (), WsPushRegistry.notify key (.envelope envelope)
      (setQueue key (s.queues key ++ [envelope]) s))

def dequeue (userId : UserId) (deviceId : DeviceId) (maxCount : ℕ) (s : Server) :
    List QueuedEnvelope × Server :=
  let key := deviceScopeKey userId deviceId
  let count := min maxCount (s.queues key).length
  ((s.queues key).take count, setQueue key ((s.queues key).drop count) s)

/-- The loop of `switchToOffline`; a failed insertion is only logged. -/
def persistPending (userId : UserId) (deviceId : DeviceId) (now : Timestamp) :
    List QueuedEnvelope → Database → Database
  | [], db => db
  | q :: qs, db => persistPending userId deviceId now qs
      (EnvelopeRepository.addDeliveryState q.envelopeId userId deviceId now db).2

def switchToOffline (userId : UserId) (deviceId : DeviceId) (s : Server) : Server :=
  let key := deviceScopeKey userId deviceId
  setQueue key []
    { s with db := persistPending userId deviceId s.clock (s.queues key) s.db }

def queueSize (userId : UserId) (deviceId : DeviceId) (s : Server) : ℕ :=
  (s.queues (deviceScopeKey userId deviceId)).length

def purgeConversationFromDeviceQueue (conversationId : ConversationId) (userId : UserId)
    (deviceId : DeviceId) (s : Server) : Server :=
  let key := deviceScopeKey userId deviceId
  setQueue key ((s.queues key).filter (·.conversationId ≠ conversationId)) s

theorem enqueue_cases (n : ℕ) (u : UserId) (d : DeviceId) (q : QueuedEnvelope) (s : Server) :
    enqueue n u d q s = (.error ⟨.queueFull, "Device queue full, use offline delivery"⟩, s) ∨
      (enqueue n u d q s).1 = .ok () ∧ (enqueue n u d q s).2.db = s.db ∧
        (enqueue n u d q s).2.queues =
          Function.update s.queues (deviceScopeKey u d) (s.queues (deviceScopeKey u d) ++ [q]) := by
  unfold enqueue
  dsimp only
  split
  · exact .inl rfl
  · right
    unfold WsPushRegistry.notify
    split
    · exact ⟨rfl, rfl, rfl⟩
    · exact ⟨rfl, rfl, rfl⟩

variable {u : UserId} {d : DeviceId} {now : Timestamp} {qs : List QueuedEnvelope} {db : Database}

theorem persistPending_frame :
    ∃ ds, persistPending u d now qs db = { db with deliveryState := db.deliveryState ++ ds } := by
  induction qs generalizing db with
  | nil => exact ⟨[], by simp [persistPending]⟩
  | cons q qs ih =>
    obtain ⟨ds, hds⟩ := @ih (EnvelopeRepository.addDeliveryState q.envelopeId u d now db).2
    rw [persistPending, hds]
    unfold EnvelopeRepository.addDeliveryState
    split
    · rename_i h
      obtain ⟨-, -, -, rfl⟩ := EnvelopeRepository.insertDeliveryState_ok h
      exact ⟨⟨q.envelopeId, u, d, now, none, none⟩ :: ds, by simp⟩
    · exact ⟨ds, rfl⟩

theorem mem_persistPending {r : DeliveryStateRecord}
    (h : r ∈ (persistPending u d now qs db).deliveryState) : r ∈ db.deliveryState ∨
      (∃ q ∈ qs, q.envelopeId = r.envelopeId) ∧ r.targetUserId = u ∧ r.targetDeviceId = d ∧
        ∃ dev ∈ db.devices, dev.key = (u, d) := by
  induction qs generalizing db with
  | nil => exact .inl h
  | cons q qs ih =>
    rw [persistPending] at h
    unfold EnvelopeRepository.addDeliveryState at h
    split at h
    · rename_i hins
      obtain ⟨-, -, hdev, rfl⟩ := EnvelopeRepository.insertDeliveryState_ok hins
      rcases ih h with h | ⟨⟨q', hq', hid⟩, hu, hd, -⟩
      · refine (List.mem_append.mp h).imp_right fun h => ?_
        rw [List.mem_singleton.mp h]
        exact ⟨⟨q, List.mem_cons_self, rfl⟩, rfl, rfl, hdev⟩
      · exact .inr ⟨⟨q', List.mem_cons_of_mem _ hq', hid⟩, hu, hd, hdev⟩
    · refine (ih h).imp_right ?_
      rintro ⟨⟨q', hq', hid⟩, h⟩
      exact ⟨⟨q', List.mem_cons_of_mem _ hq', hid⟩, h⟩

theorem persistPending_valid (h : db.Valid) : (persistPending u d now qs db).Valid := by
  induction qs generalizing db with
  | nil => exact h
  | cons q qs ih =>
    exact ih ((EnvelopeCall.exec_effect (.addDeliveryState q.envelopeId u d now) db).valid h)

end DeliveryManager

/-- The calls of the delivery manager that hold the lock of a queue, each one atomic. -/
inductive DeliveryCall
  | enqueue (userId : UserId) (deviceId : DeviceId) (envelope : QueuedEnvelope)
  | dequeue (userId : UserId) (deviceId : DeviceId) (maxCount : ℕ)
  | switchToOffline (userId : UserId) (deviceId : DeviceId)
  | queueSize (userId : UserId) (deviceId : DeviceId)
  | purgeConversationFromDeviceQueue (conversationId : ConversationId) (userId : UserId)
      (deviceId : DeviceId)
  deriving DecidableEq, Repr

namespace DeliveryCall

@[reducible] def Reply : DeliveryCall → Type
  | enqueue .. => VoidResult
  | dequeue .. => List QueuedEnvelope
  | switchToOffline .. => Unit
  | queueSize .. => ℕ
  | purgeConversationFromDeviceQueue .. => Unit

def exec (maxQueuePerDevice : ℕ) : (c : DeliveryCall) → Server → c.Reply × Server
  | enqueue u d q, s => DeliveryManager.enqueue maxQueuePerDevice u d q s
  | dequeue u d n, s => DeliveryManager.dequeue u d n s
  | switchToOffline u d, s => ((), DeliveryManager.switchToOffline u d s)
  | queueSize u d, s => (DeliveryManager.queueSize u d s, s)
  | purgeConversationFromDeviceQueue c u d, s =>
    ((), DeliveryManager.purgeConversationFromDeviceQueue c u d s)

/-- Only switching to offline delivery touches the database, and it only adds delivery states. -/
theorem exec_db (n : ℕ) (c : DeliveryCall) (s : Server) : (c.exec n s).2.db = s.db ∨
    ∃ u d qs, c = .switchToOffline u d ∧
      (c.exec n s).2.db = DeliveryManager.persistPending u d s.clock qs s.db := by
  cases c with
  | enqueue u d q =>
    left
    simp only [exec, DeliveryManager.enqueue, WsPushRegistry.notify]
    split
    · rfl
    · dsimp only; split <;> rfl
  | dequeue u d m => exact .inl rfl
  | switchToOffline u d => exact .inr ⟨u, d, _, rfl, rfl⟩
  | queueSize u d => exact .inl rfl
  | purgeConversationFromDeviceQueue c u d => exact .inl rfl

theorem exec_valid (n : ℕ) (c : DeliveryCall) {s : Server} (h : s.db.Valid) :
    (c.exec n s).2.db.Valid := by
  rcases c.exec_db n s with he | ⟨u, d, qs, -, he⟩
  · rwa [he]
  · rw [he]; exact DeliveryManager.persistPending_valid h

end DeliveryCall

inductive RegistryCall
  | register (key : String) (connection : ℕ)
  | unregister (key : String)
  | notify (key : String) (json : String)
  deriving DecidableEq, Repr

namespace RegistryCall

def exec : RegistryCall → Server → Server
  | register k n, s => WsPushRegistry.register k n s
  | unregister k, s => WsPushRegistry.unregister k s
  | notify k json, s => WsPushRegistry.notify k (.event json) s

theorem exec_frame (c : RegistryCall) (s : Server) :
    ∃ f ps, c.exec s = { s with senders := f, pushed := s.pushed ++ ps } := by
  cases c with
  | register k n => exact ⟨_, [], by simp [exec, WsPushRegistry.register]; rfl⟩
  | unregister k => exact ⟨_, [], by simp [exec, WsPushRegistry.unregister]; rfl⟩
  | notify k json =>
    simp only [exec, WsPushRegistry.notify]
    split
    · exact ⟨s.senders, [], by simp⟩
    · exact ⟨s.senders, _, rfl⟩

end RegistryCall

end VoxServer
