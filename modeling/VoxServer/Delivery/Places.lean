import VoxServer.Delivery.FanOut

/-! # Where a pair is

A pair of envelope and device waits in the queue of the device or as a delivery
state. What one call changes about that: a pair arrives, is returned by a dequeue,
moves from the queue to a delivery state, or is purged.
-/

namespace VoxServer.Delivery

open Interleaving Table

/-- The key of the queue that a pair belongs to. -/
def queueKey (p : Pair) : String := deviceScopeKey p.2.1 p.2.2

def inQueue (p : Pair) (s : Server) : ℕ := (s.queues (queueKey p)).countP (·.envelopeId = p.1)

def inRows (p : Pair) (db : Database) : ℕ := db.deliveryState.countP (·.key = p)

def returnedBy (p : Pair) (ev : Ev) : ℕ :=
  match ev.call with
  | .delivery (.dequeue u d n) =>
    if (u, d) = p.2 then (DeliveryManager.dequeue u d n ev.pre).1.countP (·.envelopeId = p.1) else 0
  | _ => 0

def purgedBy (p : Pair) (ev : Ev) : ℕ :=
  match ev.call with
  | .delivery (.purgeConversationFromDeviceQueue c u d) =>
    if (u, d) = p.2 then
      (ev.pre.queues (queueKey p)).countP fun q => q.conversationId = c ∧ q.envelopeId = p.1
    else 0
  | .envelopes (.deletePendingDeliveryForUserInConversation c u) =>
    if u = p.2.1 then
      ev.pre.db.deliveryState.countP fun d =>
        d.envelopeId ∈ EnvelopeRepository.idsIn c ev.pre.db ∧ d.key = p
    else 0
  | _ => 0

/-- The pair that arrives with a call: in a queue, or as a delivery state. -/
def arrival? (cfg : ServerConfig) (ev : Ev) : Option Pair :=
  if accepted cfg ev then attempt? ev else persist? ev

/-- The pair refers to a stored envelope and a registered device. -/
structure Grounded (p : Pair) (db : Database) : Prop where
  envelope : ∃ e ∈ db.encryptedEnvelopes, e.envelopeId = p.1
  device : ∃ d ∈ db.devices, d.key = p.2

section Rows

variable {p : Pair} {db : Database} {u : UserId} {d : DeviceId} {now : Timestamp}

theorem inRows_eq_zero : inRows p db = 0 ↔ ∀ r ∈ db.deliveryState, r.key ≠ p := by
  simp [inRows, List.countP_eq_zero]

theorem inRows_append (row : DeliveryStateRecord) :
    inRows p { db with deliveryState := db.deliveryState ++ [row] } =
      inRows p db + if row.key = p then 1 else 0 := by
  simp [inRows, List.countP_singleton]

theorem inRows_addDeliveryState (hp : Grounded p db) (h : inRows p db = 0) (now : Timestamp) :
    inRows p (EnvelopeRepository.addDeliveryState p.1 p.2.1 p.2.2 now db).2 = 1 := by
  rw [EnvelopeRepository.addDeliveryState_snd (inRows_eq_zero.mp h) hp.envelope hp.device,
    inRows_append, h]
  exact (Nat.zero_add _).trans (if_pos rfl)

theorem inRows_addDeliveryState_of_ne {e : EnvelopeId} (h : (e, u, d) ≠ p) :
    inRows p (EnvelopeRepository.addDeliveryState e u d now db).2 = inRows p db := by
  rcases EnvelopeRepository.addDeliveryState_cases e u d now db with he | he
  · rw [he]
  · rw [he, inRows_append]
    exact congrArg (inRows p db + ·) (if_neg h)

theorem Grounded.addDeliveryState (h : Grounded p db) (e : EnvelopeId) (u : UserId) (d : DeviceId)
    (now : Timestamp) : Grounded p (EnvelopeRepository.addDeliveryState e u d now db).2 := by
  rcases EnvelopeRepository.addDeliveryState_cases e u d now db with he | he
  · rwa [he]
  · rw [he]; exact ⟨h.envelope, h.device⟩

theorem inRows_persistPending {qs : List QueuedEnvelope}
    (h : inRows p db + qs.countP (·.envelopeId = p.1) ≤ 1)
    (hp : qs.countP (·.envelopeId = p.1) ≠ 0 → Grounded p db) :
    inRows p (DeliveryManager.persistPending p.2.1 p.2.2 now qs db) =
      inRows p db + qs.countP (·.envelopeId = p.1) := by
  induction qs generalizing db with
  | nil => rfl
  | cons q qs ih =>
    rw [DeliveryManager.persistPending]
    rw [List.countP_cons] at h hp ⊢
    by_cases he : q.envelopeId = p.1
    · simp only [he, decide_true, if_true] at h hp ⊢
      have hrow := inRows_addDeliveryState (hp (by omega)) (by omega) now
      rw [ih (by omega) (fun hne => absurd hne (by omega)), hrow]
      omega
    · simp only [he, decide_false, Bool.false_eq_true, if_false, Nat.add_zero] at h hp ⊢
      have hrow : inRows p (EnvelopeRepository.addDeliveryState q.envelopeId p.2.1 p.2.2 now db).2 =
          inRows p db := inRows_addDeliveryState_of_ne fun hk => he (congrArg Prod.fst hk)
      rw [ih (by omega) (fun hne => (hp hne).addDeliveryState _ _ _ _), hrow]

theorem inRows_persistPending_of_ne {qs : List QueuedEnvelope} (h : (u, d) ≠ p.2) :
    inRows p (DeliveryManager.persistPending u d now qs db) = inRows p db := by
  induction qs generalizing db with
  | nil => rfl
  | cons q qs ih =>
    rw [DeliveryManager.persistPending, ih]
    exact inRows_addDeliveryState_of_ne fun hk => h (congrArg Prod.snd hk)

end Rows

def queueOf? : Call → Option (UserId × DeviceId)
  | .delivery (.enqueue u d _) => some (u, d)
  | .delivery (.dequeue u d _) => some (u, d)
  | .delivery (.switchToOffline u d) => some (u, d)
  | .delivery (.purgeConversationFromDeviceQueue _ u d) => some (u, d)
  | _ => none

section Queues

variable {p : Pair} {s : Server} {key : String} {qs : List QueuedEnvelope}

@[simp] theorem inQueue_setQueue :
    inQueue p (DeliveryManager.setQueue (queueKey p) qs s) = qs.countP (·.envelopeId = p.1) := by
  simp [inQueue, DeliveryManager.setQueue]

theorem inQueue_setQueue_of_ne (h : key ≠ queueKey p) :
    inQueue p (DeliveryManager.setQueue key qs s) = inQueue p s := by
  simp [inQueue, DeliveryManager.setQueue, Function.update_of_ne h.symm]

@[simp] theorem inQueue_notify (key : String) (m : PushMessage) :
    inQueue p (WsPushRegistry.notify key m s) = inQueue p s := by
  unfold WsPushRegistry.notify
  split <;> rfl

@[simp] theorem db_setQueue : (DeliveryManager.setQueue key qs s).db = s.db := rfl

@[simp] theorem db_notify (key : String) (m : PushMessage) :
    (WsPushRegistry.notify key m s).db = s.db := by
  unfold WsPushRegistry.notify
  split <;> rfl

theorem inQueue_of_queues_eq {s' : Server} (h : s'.queues = s.queues) :
    inQueue p s' = inQueue p s := by
  simp [inQueue, h]

end Queues

/-- How often the pair waits for its device. -/
def waiting (p : Pair) (s : Server) : ℕ := inQueue p s + inRows p s.db

/-- How often the pair arrives with a call. -/
def arrivesBy (cfg : ServerConfig) (p : Pair) (ev : Ev) : ℕ :=
  if arrival? cfg ev = some p then 1 else 0

/-- The call accounts for the pair: what arrives waits, and what no longer waits was returned or
purged. -/
def Accounts (cfg : ServerConfig) (p : Pair) (ev : Ev) : Prop :=
  waiting p (ev.call.exec cfg ev.pre).2 + returnedBy p ev + purgedBy p ev =
    waiting p ev.pre + arrivesBy cfg p ev

section Calls

variable {cfg : ServerConfig} {e : EnvelopeId} {u : UserId} {d : DeviceId} {p : Pair} {i : ℕ}
  {s : Server}

theorem accounts_enqueue (q : QueuedEnvelope) :
    Accounts cfg (e, u, d) ⟨i, .delivery (.enqueue u d q), s⟩ := by
  by_cases h : (s.queues (deviceScopeKey u d)).length ≥ cfg.maxQueueDepthPerDevice
  · -- the queue is full
    have hx : DeliveryManager.enqueue cfg.maxQueueDepthPerDevice u d q s =
        (.error ⟨.queueFull, "Device queue full, use offline delivery"⟩, s) := if_pos h
    simp [Accounts, Call.exec, DeliveryCall.exec, hx, returnedBy, purgedBy, arrivesBy, arrival?,
      accepted, persist?]
  · have hx : DeliveryManager.enqueue cfg.maxQueueDepthPerDevice u d q s =
        (.ok (), WsPushRegistry.notify (deviceScopeKey u d) (.envelope q)
          (DeliveryManager.setQueue (deviceScopeKey u d)
            (s.queues (deviceScopeKey u d) ++ [q]) s)) := if_neg h
    have hq : inQueue (e, u, d) (DeliveryManager.setQueue (deviceScopeKey u d)
        (s.queues (deviceScopeKey u d) ++ [q]) s) =
        inQueue (e, u, d) s + if q.envelopeId = e then 1 else 0 := by
      refine inQueue_setQueue.trans ?_
      simp [inQueue, queueKey, List.countP_singleton]
    simp only [Accounts, waiting, Call.exec, DeliveryCall.exec, hx, returnedBy, purgedBy, arrivesBy,
      arrival?, accepted, attempt?, inQueue_notify, db_notify, db_setQueue, hq]
    simp
    omega

theorem accounts_dequeue (n : ℕ) :
    Accounts cfg (e, u, d) ⟨i, .delivery (.dequeue u d n), s⟩ := by
  have hq : inQueue (e, u, d) (DeliveryManager.dequeue u d n s).2 =
      ((s.queues (deviceScopeKey u d)).drop
        (min n (s.queues (deviceScopeKey u d)).length)).countP (·.envelopeId = e) :=
    inQueue_setQueue
  have hr : returnedBy (e, u, d) ⟨i, .delivery (.dequeue u d n), s⟩ =
      ((s.queues (deviceScopeKey u d)).take
        (min n (s.queues (deviceScopeKey u d)).length)).countP (·.envelopeId = e) := if_pos rfl
  have hsum := congrArg (List.countP (·.envelopeId = e))
    (List.take_append_drop (min n (s.queues (deviceScopeKey u d)).length)
      (s.queues (deviceScopeKey u d)))
  rw [List.countP_append] at hsum
  show inQueue (e, u, d) (DeliveryManager.dequeue u d n s).2 + inRows (e, u, d) s.db +
    returnedBy (e, u, d) ⟨i, .delivery (.dequeue u d n), s⟩ + 0 =
      (s.queues (deviceScopeKey u d)).countP (·.envelopeId = e) + inRows (e, u, d) s.db + 0
  omega

theorem accounts_switchToOffline (h : waiting (e, u, d) s ≤ 1)
    (hg : inQueue (e, u, d) s ≠ 0 → Grounded (e, u, d) s.db) :
    Accounts cfg (e, u, d) ⟨i, .delivery (.switchToOffline u d), s⟩ := by
  have hq : inQueue (e, u, d) (DeliveryManager.switchToOffline u d s) = 0 := inQueue_setQueue
  have hr : inRows (e, u, d) (DeliveryManager.switchToOffline u d s).db =
      inRows (e, u, d) s.db + inQueue (e, u, d) s :=
    inRows_persistPending ((Nat.add_comm _ _).trans_le h) hg
  show inQueue (e, u, d) (DeliveryManager.switchToOffline u d s) +
    inRows (e, u, d) (DeliveryManager.switchToOffline u d s).db + 0 + 0 = waiting (e, u, d) s + 0
  unfold waiting
  omega

theorem accounts_purgeQueue (c : ConversationId) :
    Accounts cfg (e, u, d) ⟨i, .delivery (.purgeConversationFromDeviceQueue c u d), s⟩ := by
  have hsum := countP_deleteWhere (fun q : QueuedEnvelope => q.conversationId = c)
    (fun q => q.envelopeId = e) (s.queues (deviceScopeKey u d))
  have hq : inQueue (e, u, d) (DeliveryManager.purgeConversationFromDeviceQueue c u d s) =
      (deleteWhere (·.conversationId = c) (s.queues (deviceScopeKey u d))).countP
        (·.envelopeId = e) := by
    refine inQueue_setQueue.trans ?_
    simp [deleteWhere]
  have hp : purgedBy (e, u, d) ⟨i, .delivery (.purgeConversationFromDeviceQueue c u d), s⟩ =
      (s.queues (deviceScopeKey u d)).countP
        fun q => decide (q.conversationId = c) && decide (q.envelopeId = e) := by
    refine (if_pos rfl).trans ?_
    simp [queueKey]
  show inQueue (e, u, d) (DeliveryManager.purgeConversationFromDeviceQueue c u d s) +
    inRows (e, u, d) s.db + 0 +
    purgedBy (e, u, d) ⟨i, .delivery (.purgeConversationFromDeviceQueue c u d), s⟩ =
      (s.queues (deviceScopeKey u d)).countP (·.envelopeId = e) + inRows (e, u, d) s.db + 0
  omega

theorem accounts_of_same {ev : Ev}
    (hq : inQueue p (ev.call.exec cfg ev.pre).2 = inQueue p ev.pre)
    (hr : inRows p (ev.call.exec cfg ev.pre).2.db = inRows p ev.pre.db)
    (hret : returnedBy p ev = 0) (hpur : purgedBy p ev = 0) (harr : arrivesBy cfg p ev = 0) :
    Accounts cfg p ev := by
  rw [Accounts, waiting, waiting, hq, hr, hret, hpur, harr]

theorem accounts_delivery_of_ne {c : DeliveryCall} (hq : queueOf? (.delivery c) = some (u, d))
    (hk : deviceScopeKey u d ≠ queueKey p) (hne : (u, d) ≠ p.2) :
    Accounts cfg p ⟨i, .delivery c, s⟩ := by
  cases c with
  | enqueue u' d' q =>
    cases hq
    have harr : arrivesBy cfg p ⟨i, .delivery (.enqueue u d q), s⟩ = 0 := by
      refine if_neg fun h => ?_
      unfold arrival? at h
      split at h
      · exact hne (congrArg Prod.snd (Option.some.inj h))
      · cases h
    refine accounts_of_same ?_ ?_ rfl rfl harr
    · simp only [Call.exec, DeliveryCall.exec, DeliveryManager.enqueue]
      split
      · rfl
      · rw [inQueue_notify, inQueue_setQueue_of_ne hk]
    · simp only [Call.exec, DeliveryCall.exec, DeliveryManager.enqueue]
      split
      · rfl
      · rw [db_notify, db_setQueue]
  | dequeue u' d' n =>
    cases hq
    exact accounts_of_same (inQueue_setQueue_of_ne hk) rfl (if_neg hne) rfl rfl
  | switchToOffline u' d' =>
    cases hq
    exact accounts_of_same (inQueue_setQueue_of_ne hk) (inRows_persistPending_of_ne hne) rfl rfl
      rfl
  | purgeConversationFromDeviceQueue c u' d' =>
    cases hq
    exact accounts_of_same (inQueue_setQueue_of_ne hk) rfl rfl (if_neg hne) rfl
  | queueSize u' d' => cases hq

theorem inRows_updateWhere {db : Database} {t : DeliveryStateRecord → Bool}
    {f : DeliveryStateRecord → DeliveryStateRecord} (hf : ∀ r, (f r).key = r.key) :
    inRows p { db with deliveryState := updateWhere t f db.deliveryState } = inRows p db := by
  have hkey : ∀ rows : List DeliveryStateRecord,
      rows.countP (·.key = p) = (rows.map (·.key)).countP (· = p) := by
    intro rows
    rw [List.countP_map]
    rfl
  rw [inRows, inRows, hkey, hkey, map_updateWhere hf]

theorem accounts_purgeRows (c : ConversationId) :
    Accounts cfg p ⟨i, .envelopes (.deletePendingDeliveryForUserInConversation c u), s⟩ := by
  have hsum := countP_deleteWhere (fun d : DeliveryStateRecord =>
    d.targetUserId = u ∧ d.envelopeId ∈ EnvelopeRepository.idsIn c s.db) (fun d => d.key = p)
    s.db.deliveryState
  have hp : purgedBy p ⟨i, .envelopes (.deletePendingDeliveryForUserInConversation c u), s⟩ =
      s.db.deliveryState.countP fun d =>
        decide (d.targetUserId = u ∧ d.envelopeId ∈ EnvelopeRepository.idsIn c s.db) &&
          decide (d.key = p) := by
    by_cases hu : u = p.2.1
    · refine (if_pos hu).trans (List.countP_congr fun r _ => ?_)
      have hr : r.key = p → r.targetUserId = p.2.1 := fun h => congrArg (·.2.1) h
      simp only [decide_eq_true_eq, Bool.and_eq_true, hu]
      tauto
    · refine (if_neg hu).trans (List.countP_eq_zero.mpr fun r _ h => ?_).symm
      simp only [decide_eq_true_eq, Bool.and_eq_true] at h
      exact hu (h.1.1.symm.trans (congrArg (·.2.1) h.2))
  rw [← hp] at hsum
  show inQueue p s + (deleteWhere (fun d => d.targetUserId = u ∧
      d.envelopeId ∈ EnvelopeRepository.idsIn c s.db) s.db.deliveryState).countP (·.key = p) + 0 +
    purgedBy p ⟨i, .envelopes (.deletePendingDeliveryForUserInConversation c u), s⟩ =
      inQueue p s + s.db.deliveryState.countP (·.key = p) + 0
  omega

theorem accounts_envelopes (c : EnvelopeCall) (hrem : ¬ (Call.envelopes c).removes)
    (h : waiting p s + arrivesBy cfg p ⟨i, .envelopes c, s⟩ ≤ 1)
    (hg : arrival? cfg ⟨i, .envelopes c, s⟩ = some p → Grounded p s.db) :
    Accounts cfg p ⟨i, .envelopes c, s⟩ := by
  cases c with
  | storeEnvelope env =>
    refine accounts_of_same rfl ?_ rfl rfl rfl
    exact congrArg (List.countP _) (EnvelopeRepository.storeEnvelope_deliveryState env s.db)
  | addDeliveryState e u d now =>
    by_cases hp : (e, u, d) = p
    · subst hp
      have harr : arrivesBy cfg (e, u, d) ⟨i, .envelopes (.addDeliveryState e u d now), s⟩ = 1 :=
        if_pos rfl
      rw [harr, waiting] at h
      have hrow : inRows (e, u, d) (EnvelopeRepository.addDeliveryState e u d now s.db).2 = 1 :=
        inRows_addDeliveryState (hg rfl) (by omega) now
      rw [Accounts, harr, waiting, waiting]
      show inQueue (e, u, d) s + inRows (e, u, d)
        (EnvelopeRepository.addDeliveryState e u d now s.db).2 + 0 + 0 =
          inQueue (e, u, d) s + inRows (e, u, d) s.db + 1
      omega
    · exact accounts_of_same rfl (inRows_addDeliveryState_of_ne hp) rfl rfl
        (if_neg fun h => hp (Option.some.inj h))
  | markDelivered e u d now =>
    refine accounts_of_same rfl ?_ rfl rfl rfl
    refine (congrArg (inRows p) (EnvelopeCall.updateDelivery_snd e u d _ s.db)).trans ?_
    exact inRows_updateWhere fun _ => rfl
  | markAcked e u d now =>
    refine accounts_of_same rfl ?_ rfl rfl rfl
    refine (congrArg (inRows p) (EnvelopeCall.updateDelivery_snd e u d _ s.db)).trans ?_
    exact inRows_updateWhere fun _ => rfl
  | deletePendingDeliveryForUserInConversation c u => exact accounts_purgeRows c
  | deleteExpired now => exact absurd rfl hrem
  | _ => exact accounts_of_same rfl rfl rfl rfl rfl

theorem accounts_call {ev : Ev} (hrem : ¬ ev.call.removes)
    (hkey : ∀ k ∈ queueOf? ev.call, deviceScopeKey k.1 k.2 = queueKey p → k = p.2)
    (h : waiting p ev.pre + arrivesBy cfg p ev ≤ 1)
    (hg : inQueue p ev.pre ≠ 0 ∨ arrival? cfg ev = some p → Grounded p ev.pre.db) :
    Accounts cfg p ev := by
  obtain ⟨i, c, s⟩ := ev
  cases c with
  | envelopes c => exact accounts_envelopes c hrem h fun harr => hg (.inr harr)
  | delivery c =>
    cases hq : queueOf? (.delivery c) with
    | none =>
      cases c with
      | queueSize u d => exact accounts_of_same rfl rfl rfl rfl rfl
      | _ => cases hq
    | some k =>
      by_cases hk : k = p.2
      · obtain ⟨e, u, d⟩ := p
        cases c with
        | enqueue u' d' q => cases hq; cases hk; exact accounts_enqueue q
        | dequeue u' d' n => cases hq; cases hk; exact accounts_dequeue n
        | switchToOffline u' d' =>
          cases hq; cases hk
          exact accounts_switchToOffline (Nat.le_of_add_right_le h) fun hne => hg (.inl hne)
        | purgeConversationFromDeviceQueue c u' d' =>
          cases hq; cases hk; exact accounts_purgeQueue c
        | queueSize u' d' => cases hq
      · exact accounts_delivery_of_ne hq (fun he => hk (hkey k hq he)) hk
  | admin c => exact absurd rfl hrem
  | _ =>
    refine accounts_of_same (inQueue_of_queues_eq (Call.exec_queues cfg (by simp))) ?_ rfl rfl rfl
    exact congrArg (List.countP _)
      (Call.exec_deliveryState cfg (by simp) (by simp) (by simp [Call.isAdmin]))

end Calls

end VoxServer.Delivery
