import VoxServer.Delivery.Conservation

/-! # Deliveries wait for participants only

When operations run one after another, an envelope waits only for users who take part
in its conversation. A send delivers to the participants of the moment, and whoever
leaves loses the deliveries that wait, on every device. In between an operation that
ends a participation owes the purge of what still waits for the user.
-/

namespace VoxServer.Delivery

open Interleaving Prog Table ConversationRepository

/-- What waits for someone who has left, while the operation is not done. -/
structure Owed where
  rows : ConversationId → UserId → Prop
  queues : ConversationId → UserId × DeviceId → Prop

/-- Nothing is owed between operations. -/
def Owed.nothing : Owed := ⟨fun _ _ => False, fun _ _ => False⟩

/-- The queued envelope is stored, in the same conversation. -/
def Filed (q : QueuedEnvelope) (db : Database) : Prop :=
  ∃ e ∈ db.encryptedEnvelopes, e.envelopeId = q.envelopeId ∧ e.conversationId = q.conversationId

/-- What waits, waits for participants, up to what is owed. The queues are part of it if `K`
holds: they stay when an envelope expires or a user is deleted. -/
structure Addressed (K : Prop) (x : Owed) (s : Server) : Prop where
  valid : s.db.Valid
  separated : K → Separated s
  queued : K → ∀ key, ∀ q ∈ s.queues key, ∃ dev ∈ s.db.devices,
    key = deviceScopeKey dev.userId dev.deviceId ∧ Filed q s.db ∧
      (isUserInConversation q.conversationId dev.userId s.db ∨
        x.queues q.conversationId dev.key)
  rows : ∀ r ∈ s.db.deliveryState, ∀ e ∈ s.db.encryptedEnvelopes, e.envelopeId = r.envelopeId →
    isUserInConversation e.conversationId r.targetUserId s.db ∨
      x.rows e.conversationId r.targetUserId

section Calls

variable {cfg : ServerConfig} {K : Prop} {x : Owed} {s : Server} {c : Call}

/-- A call that deletes nothing and ends no participation keeps the addresses, if what it adds is
addressed to participants. -/
theorem Addressed.call (h : Addressed K x s) (hr : ¬ c.removes) (hl : ∀ k, ¬ c.leaves k)
    (hu : K → ∀ r, c = .users (.createUser r) → kSep ∉ r.userId.toList)
    (hq : K → ∀ key, ∀ q ∈ (c.exec cfg s).2.queues key, q ∈ s.queues key ∨
      ∃ dev ∈ s.db.devices, key = deviceScopeKey dev.userId dev.deviceId ∧ Filed q s.db ∧
        isUserInConversation q.conversationId dev.userId s.db)
    (hrows : ∀ r ∈ (c.exec cfg s).2.db.deliveryState,
      (∃ r₀ ∈ s.db.deliveryState, r₀.key = r.key) ∨
      (∃ e ∈ s.db.encryptedEnvelopes, e.envelopeId = r.envelopeId) ∧
        ∀ e ∈ s.db.encryptedEnvelopes, e.envelopeId = r.envelopeId →
          isUserInConversation e.conversationId r.targetUserId s.db) :
    Addressed K x (c.exec cfg s).2 := by
  have hadmin := not_isAdmin_of_not_removes hr
  have hpart : ∀ {conv u}, isUserInConversation conv u s.db →
      isUserInConversation conv u (c.exec cfg s).2.db := fun h' =>
    Call.exec_participant cfg h.valid hadmin (hl _) h'
  have hfiled : ∀ {q}, Filed q s.db → Filed q (c.exec cfg s).2.db := fun ⟨e, he, h'⟩ =>
    ⟨e, Call.exec_keeps_envelope cfg hr he, h'⟩
  refine ⟨c.exec_valid cfg h.valid, fun hK => ?_, fun hK key q hmem => ?_,
    fun r hmem e he hid => ?_⟩
  · intro u hmem
    rcases Call.userId_of_exec cfg hmem with ⟨r, hr, hid⟩ | ⟨r, hcall, hid⟩
    · exact hid ▸ h.separated hK r hr
    · exact hid ▸ hu hK r hcall
  · have hdev : ∃ dev ∈ s.db.devices, key = deviceScopeKey dev.userId dev.deviceId ∧
        Filed q s.db ∧ (isUserInConversation q.conversationId dev.userId s.db ∨
          x.queues q.conversationId dev.key) := by
      rcases hq hK key q hmem with hold | ⟨dev, hdev, hkey, hf, hin⟩
      · exact h.queued hK key q hold
      · exact ⟨dev, hdev, hkey, hf, .inl hin⟩
    obtain ⟨dev, hdev, rfl, hf, hin⟩ := hdev
    obtain ⟨dev', hdev', hk⟩ := Call.exec_keeps_device cfg hadmin ⟨dev, hdev, rfl⟩
    obtain ⟨hu', hd'⟩ : dev'.userId = dev.userId ∧ dev'.deviceId = dev.deviceId :=
      Prod.mk.inj hk
    refine ⟨dev', hdev', by rw [hu', hd'], hfiled hf, ?_⟩
    rw [hu', hk]
    exact hin.imp_left hpart
  · -- the envelope of a delivery state is not a new one
    have hold : (∃ e ∈ s.db.encryptedEnvelopes, e.envelopeId = r.envelopeId) := by
      rcases hrows r hmem with ⟨r₀, hr₀, hk⟩ | ⟨hex, -⟩
      · obtain ⟨e₀, he₀, hid₀⟩ := h.valid.delivery_envelope r₀ hr₀
        exact ⟨e₀, he₀, hid₀.trans (congrArg Prod.fst hk)⟩
      · exact hex
    obtain ⟨e₀, he₀, hid₀⟩ := hold
    have hes : e ∈ s.db.encryptedEnvelopes := by
      refine (Call.envelope_of_exec cfg he).resolve_right fun ⟨_, hnew⟩ => ?_
      exact hnew e₀ he₀ (hid₀.trans hid.symm)
    rcases hrows r hmem with ⟨r₀, hr₀, hk⟩ | ⟨-, hnew⟩
    · obtain ⟨hid', hu', -⟩ : r₀.envelopeId = r.envelopeId ∧ r₀.targetUserId = r.targetUserId ∧
          r₀.targetDeviceId = r.targetDeviceId := by
        simpa [DeliveryStateRecord.key] using hk
      rw [← hu']
      exact (h.rows r₀ hr₀ e hes (hid.trans hid'.symm)).imp_left hpart
    · exact .inl (hpart (hnew e hes hid))

theorem deliveryState_of_routine (hc : c.routine) :
    (c.exec cfg s).2.db.deliveryState = s.db.deliveryState := by
  cases c with
  | envelopes a => cases a <;> first | rfl | cases hc
  | delivery a => cases hc
  | admin a => cases hc
  | _ => exact Call.exec_deliveryState cfg (by simp) (by simp) (by simp [Call.isAdmin])

theorem queues_of_routine (hc : c.routine) : (c.exec cfg s).2.queues = s.queues := by
  refine Call.exec_queues cfg ?_
  rintro a rfl
  cases hc

theorem not_leaves_of_tame (hc : c.tame) (k : ConversationId × UserId) : ¬ c.leaves k := by
  cases c with
  | conversations a =>
    cases a with
    | removeMember => cases hc
    | unsubscribe => cases hc
    | _ => simp [Call.leaves, ConversationCall.leaves]
  | _ => simp [Call.leaves]

theorem Addressed.routine (hc : c.routine) (hl : ∀ k, ¬ c.leaves k) (h : Addressed K x s) :
    Addressed K x (c.exec cfg s).2 := by
  refine h.call (not_removes_of_routine hc) hl ?_ ?_ ?_
  · rintro - r rfl
    cases hc
  · intro _ key q hq
    exact .inl (queues_of_routine hc ▸ hq)
  · intro r hr
    exact .inl ⟨r, deliveryState_of_routine hc ▸ hr, rfl⟩

theorem Addressed.tame (hc : c.tame) (h : Addressed K x s) : Addressed K x (c.exec cfg s).2 :=
  h.routine (Call.routine_of_tame hc) (not_leaves_of_tame hc)

theorem Addressed.of_tame {α : Type} {p : ServerProg α} (hp : Tame p) (h : Addressed K x s) :
    p.Ends (Call.exec cfg) (fun _ => Addressed K x) s :=
  Only.ends hp (fun _ _ hc h => h.tame hc) h

variable (cfg) in
theorem Addressed.shrink {a : DeliveryCall} (h : Addressed K x s)
    (hdb : (a.exec cfg.maxQueueDepthPerDevice s).2.db = s.db)
    (hq : ∀ key, ∀ q ∈ (a.exec cfg.maxQueueDepthPerDevice s).2.queues key, q ∈ s.queues key) :
    Addressed K x (Call.exec cfg (.delivery a) s).2 := by
  refine h.call (by simp [Call.removes]) (by simp [Call.leaves]) ?_ ?_ ?_
  · rintro - r ⟨⟩
  · exact fun _ key q hmem => .inl (hq key q hmem)
  · intro r hr
    exact .inl ⟨r, hdb ▸ hr, rfl⟩

theorem mem_setQueue {key key' : String} {qs : List QueuedEnvelope} {q : QueuedEnvelope}
    (hqs : ∀ q ∈ qs, q ∈ s.queues key') (h : q ∈ (DeliveryManager.setQueue key' qs s).queues key) :
    q ∈ s.queues key := by
  by_cases hk : key = key'
  · subst hk
    exact hqs q (by simpa [DeliveryManager.setQueue] using h)
  · simpa [DeliveryManager.setQueue, hk] using h

variable (cfg) in
theorem Addressed.dequeue (h : Addressed K x s) (u : UserId) (d : DeviceId) (n : ℕ) :
    Addressed K x (Call.exec cfg (.delivery (.dequeue u d n)) s).2 :=
  h.shrink cfg rfl fun _ _ hq => mem_setQueue (fun _ h => List.mem_of_mem_drop h) hq

variable (cfg) in
theorem Addressed.envelopes {a : EnvelopeCall} (h : Addressed K x s)
    (hr : ¬ Call.removes (.envelopes a))
    (hrows : ∀ r ∈ (Call.exec cfg (.envelopes a) s).2.db.deliveryState,
      (∃ r₀ ∈ s.db.deliveryState, r₀.key = r.key) ∨
      (∃ e ∈ s.db.encryptedEnvelopes, e.envelopeId = r.envelopeId) ∧
        ∀ e ∈ s.db.encryptedEnvelopes, e.envelopeId = r.envelopeId →
          isUserInConversation e.conversationId r.targetUserId s.db) :
    Addressed K x (Call.exec cfg (.envelopes a) s).2 := by
  refine h.call hr (by simp [Call.leaves]) ?_ ?_ hrows
  · rintro - r ⟨⟩
  · exact fun _ _ _ hq => .inl hq

variable (cfg) in
theorem Addressed.store (h : Addressed K x s) (e : EnvelopeRecord) :
    Addressed K x (Call.exec cfg (.envelopes (.storeEnvelope e)) s).2 := by
  refine h.envelopes cfg (by simp [Call.removes]) fun r hr => ?_
  exact .inl ⟨r, EnvelopeRepository.storeEnvelope_deliveryState e s.db ▸ hr, rfl⟩

variable (cfg) in
theorem Addressed.acked (h : Addressed K x s) (e : EnvelopeId) (u : UserId) (d : DeviceId)
    (now : Timestamp) : Addressed K x (Call.exec cfg (.envelopes (.markAcked e u d now)) s).2 := by
  refine h.envelopes cfg (by simp [Call.removes]) fun r hr => ?_
  have hdb := EnvelopeCall.updateDelivery_snd e u d
    (fun d => { d with ackedAt := some now }) s.db
  simp only [Call.exec, Call.onDb, EnvelopeCall.exec, EnvelopeRepository.markAcked, hdb] at hr
  obtain ⟨r₀, hr₀, rfl⟩ := mem_updateWhere.mp hr
  refine .inl ⟨r₀, hr₀, ?_⟩
  split <;> rfl

theorem Addressed.separated_user (h : Addressed K x s) (hK : K) {dev : DeviceRecord}
    (hdev : dev ∈ s.db.devices) : kSep ∉ dev.userId.toList := by
  obtain ⟨r, hr, hid⟩ := h.valid.devices_user dev hdev
  exact hid ▸ h.separated hK r hr

variable (cfg) in
theorem Addressed.enqueue (h : Addressed K x s) {dev : DeviceRecord} (hdev : dev ∈ s.db.devices)
    {q : QueuedEnvelope} (hq : Filed q s.db)
    (hin : isUserInConversation q.conversationId dev.userId s.db) :
    Addressed K x (Call.exec cfg (.delivery (.enqueue dev.userId dev.deviceId q)) s).2 := by
  refine h.call (by simp [Call.removes]) (by simp [Call.leaves]) ?_ ?_ ?_
  · rintro - r ⟨⟩
  · intro _ key q' hmem
    rcases DeliveryManager.enqueue_cases cfg.maxQueueDepthPerDevice dev.userId dev.deviceId q s
      with he | ⟨-, -, he⟩
    · simp only [Call.exec, DeliveryCall.exec, he] at hmem
      exact .inl hmem
    · simp only [Call.exec, DeliveryCall.exec, he] at hmem
      by_cases hk : key = deviceScopeKey dev.userId dev.deviceId
      · subst hk
        rw [Function.update_self, List.mem_append, List.mem_singleton] at hmem
        refine hmem.imp_right fun hqq => ?_
        exact ⟨dev, hdev, rfl, hqq ▸ hq, hqq ▸ hin⟩
      · rw [Function.update_of_ne hk] at hmem
        exact .inl hmem
  · intro r hr
    rcases DeliveryManager.enqueue_cases cfg.maxQueueDepthPerDevice dev.userId dev.deviceId q s
      with he | ⟨-, he, -⟩
    · simp only [Call.exec, DeliveryCall.exec, he] at hr
      exact .inl ⟨r, hr, rfl⟩
    · simp only [Call.exec, DeliveryCall.exec, he] at hr
      exact .inl ⟨r, hr, rfl⟩

theorem Addressed.persist (h : Addressed K x s) {e : EnvelopeId} {u : UserId} {d : DeviceId}
    {now : Timestamp} (hin : ∀ env ∈ s.db.encryptedEnvelopes, env.envelopeId = e →
      isUserInConversation env.conversationId u s.db) :
    Addressed K x (Call.exec cfg (.envelopes (.addDeliveryState e u d now)) s).2 := by
  refine h.envelopes cfg (by simp [Call.removes]) fun r hr => ?_
  simp only [Call.exec, Call.onDb, EnvelopeCall.exec, EnvelopeRepository.addDeliveryState] at hr
  split at hr
  · rename_i hins
    obtain ⟨-, hex, -, rfl⟩ := EnvelopeRepository.insertDeliveryState_ok hins
    rcases List.mem_append.mp hr with hr | hr
    · exact .inl ⟨r, hr, rfl⟩
    · rw [List.mem_singleton.mp hr]
      exact .inr ⟨hex, hin⟩
  · exact .inl ⟨r, hr, rfl⟩

theorem Addressed.createUser (h : Addressed K x s) {r : UserRecord}
    (hr : K → kSep ∉ r.userId.toList) :
    Addressed K x (Call.exec cfg (.users (.createUser r)) s).2 := by
  refine h.call (by simp [Call.removes]) (by simp [Call.leaves]) ?_ ?_ ?_
  · rintro hK r' ⟨⟩
    exact hr hK
  · exact fun _ _ _ hq => .inl hq
  · intro r' hr'
    rw [Call.exec_deliveryState cfg (by simp) (by simp) (by simp [Call.isAdmin])] at hr'
    exact .inl ⟨r', hr', rfl⟩

variable (cfg) in
theorem Addressed.switchToOffline (h : Addressed K Owed.nothing s) (hK : K) (u : UserId)
    (d : DeviceId) :
    Addressed K Owed.nothing (Call.exec cfg (.delivery (.switchToOffline u d)) s).2 := by
  refine h.call (by simp [Call.removes]) (by simp [Call.leaves]) ?_ ?_ ?_
  · rintro - r ⟨⟩
  · exact fun _ key q hq => .inl (mem_setQueue (s := { s with db := _ }) (by simp) hq)
  · intro r hr
    rcases DeliveryManager.mem_persistPending hr with hr | ⟨⟨q, hq, hid⟩, rfl, -, dev, hdev, hk⟩
    · exact .inl ⟨r, hr, rfl⟩
    -- the queue belongs to the user that the delivery state is for
    obtain ⟨dev', hdev', hkey, ⟨e, he, hide, hconv⟩, hin⟩ := h.queued hK _ q hq
    obtain ⟨hku, hkd⟩ : dev.userId = r.targetUserId ∧ dev.deviceId = d := Prod.mk.inj hk
    rw [← hku, ← hkd] at hkey
    have hu : dev.userId = dev'.userId :=
      ((deviceScopeKey_inj (h.separated_user hK hdev) (h.separated_user hK hdev')).mp hkey).1
    refine .inr ⟨⟨e, he, hide.trans hid⟩, fun env henv henvid => ?_⟩
    rw [h.valid.envelopes_pk.eq_of_mem henv he (henvid.trans (hide.trans hid).symm), hconv, ← hku,
      hu]
    exact hin.resolve_right id

theorem Addressed.drop {s' : Server} (h : Addressed K x s) (hK : ¬ K) (hv : s'.db.Valid)
    (hrows : s'.db.deliveryState ⊆ s.db.deliveryState)
    (henv : s'.db.encryptedEnvelopes ⊆ s.db.encryptedEnvelopes)
    (hin : ∀ r ∈ s'.db.deliveryState, ∀ c, isUserInConversation c r.targetUserId s.db →
      isUserInConversation c r.targetUserId s'.db) : Addressed K x s' := by
  refine ⟨hv, fun h => absurd h hK, fun h => absurd h hK, fun r hr e he hid => ?_⟩
  exact (h.rows r (hrows hr) e (henv he) hid).imp_left (hin r hr _)

variable (cfg) in
theorem Addressed.deleteExpired (h : Addressed K x s) (hK : ¬ K) (now : Timestamp) :
    Addressed K x (Call.exec cfg (.envelopes (.deleteExpired now)) s).2 := by
  refine h.drop hK (Call.exec_valid cfg _ h.valid) ?_ ?_ fun r _ c hin => hin
  · exact fun r hr => List.mem_of_mem_filter hr
  · exact fun e he => List.mem_of_mem_filter he

theorem isUserInConversation_withoutUser {c : ConversationId} {u v : UserId} {db : Database}
    (hne : v ≠ u) (h : isUserInConversation c v db) :
    isUserInConversation c v (AdminService.withoutUser u db) := by
  have hfind : findById c (AdminService.withoutUser u db) = findById c db := rfl
  unfold isUserInConversation at h ⊢
  rw [hfind]
  split at h
  · exact h
  split at h
  · obtain ⟨r, hr, hk⟩ := List.any_eq_true.mp h
    refine List.any_eq_true.mpr ⟨r, mem_deleteWhere.mpr ⟨hr, ?_⟩, hk⟩
    have hv : r.userId = v := congrArg Prod.snd (of_decide_eq_true hk).1
    simpa [hv] using hne
  · obtain ⟨m, hm, hk⟩ := List.any_eq_true.mp h
    refine List.any_eq_true.mpr ⟨m, mem_deleteWhere.mpr ⟨hm, ?_⟩, hk⟩
    have hv : m.userId = v := congrArg Prod.snd (of_decide_eq_true hk).1
    simpa [hv] using hne

variable (cfg) in
theorem Addressed.deleteUserRows (h : Addressed K x s) (hK : ¬ K) (u : UserId) :
    Addressed K x (Call.exec cfg (.admin (.deleteUserRows u)) s).2 := by
  have hv := Call.exec_valid cfg (.admin (.deleteUserRows u)) h.valid
  have hdb : (Call.exec cfg (.admin (.deleteUserRows u)) s).2.db = s.db ∨
      (Call.exec cfg (.admin (.deleteUserRows u)) s).2.db = AdminService.withoutUser u s.db :=
    AdminCall.exec_cases u s.db
  have hred := Call.exec_reduced cfg (c := .admin (.deleteUserRows u)) (s := s) rfl
  generalize (Call.exec cfg (.admin (.deleteUserRows u)) s).2 = s' at hv hdb hred ⊢
  apply h.drop hK hv hred.deliveryState.subset hred.encryptedEnvelopes.subset
  intro r hr c hin
  rcases hdb with hdb | hdb
  · rwa [hdb]
  · rw [hdb] at hr ⊢
    have hne := (mem_deleteWhere.mp (mem_deleteWhere.mp hr).1).2
    exact isUserInConversation_withoutUser (by simpa using hne) hin

theorem Addressed.deleteUser (h : Addressed K x s) (hK : ¬ K) (u : UserId) :
    (Handlers.deleteUser u).Ends (Call.exec cfg) (fun _ => Addressed K x) s := by
  refine ends_perform_bind.mpr ?_
  split
  · exact h.deleteUserRows cfg hK u
  · exact h

end Calls

section Leaving

variable {cfg : ServerConfig} {K : Prop} {s : Server} {conv : ConversationId} {u : UserId}

/-- What is owed once a user has left a conversation. -/
def Owed.left (conv : ConversationId) (u : UserId) : Owed :=
  ⟨fun c v => c = conv ∧ v = u, fun c k => c = conv ∧ k.1 = u⟩

/-- What is owed while the queues of some devices are not purged. -/
def Owed.devices (conv : ConversationId) (devs : List DeviceRecord) : Owed :=
  ⟨fun _ _ => False, fun c k => c = conv ∧ ∃ dev ∈ devs, dev.key = k⟩

theorem Addressed.leave {a : ConversationCall} (ha : ∀ k, a.leaves k → k = (conv, u))
    (h : Addressed K Owed.nothing s) :
    Addressed K (Owed.left conv u) (Call.exec cfg (.conversations a) s).2 := by
  have hpart : ∀ {c v}, isUserInConversation c v s.db →
      isUserInConversation c v (Call.exec cfg (.conversations a) s).2.db ∨ c = conv ∧ v = u := by
    intro c v hin
    by_cases hl : (Call.conversations a).leaves (c, v)
    · exact .inr (Prod.mk.inj (ha _ hl))
    · exact .inl (Call.exec_participant cfg h.valid (by simp [Call.isAdmin]) hl hin)
  have hdb : ∃ cs ms ss, (Call.exec cfg (.conversations a) s).2.db = { s.db with
      conversations := cs, conversationMembers := ms, channelSubscriptions := ss } :=
    (a.exec_effect s.db).frame
  obtain ⟨cs, ms, ss, hdb⟩ := hdb
  refine ⟨Call.exec_valid cfg _ h.valid, fun hK => ?_, fun hK key q hq => ?_,
    fun r hr e he hid => ?_⟩
  · unfold Separated
    rw [hdb]
    exact h.separated hK
  · obtain ⟨dev, hdev, hkey, hf, hin⟩ := h.queued hK key q hq
    refine ⟨dev, by rwa [hdb], hkey, by unfold Filed; rwa [hdb], ?_⟩
    exact hpart (hin.resolve_right id)
  · rw [hdb] at hr he
    exact hpart ((h.rows r hr e he hid).resolve_right id)

theorem Addressed.purgeRows (h : Addressed K (Owed.left conv u) s) :
    Addressed K ⟨fun _ _ => False, (Owed.left conv u).queues⟩
      (Call.exec cfg (.envelopes (.deletePendingDeliveryForUserInConversation conv u)) s).2 := by
  refine ⟨Call.exec_valid cfg _ h.valid, h.separated, h.queued, fun r hr e he hid => .inl ?_⟩
  obtain ⟨hr, hkeep⟩ := mem_deleteWhere.mp hr
  refine (h.rows r hr e he hid).resolve_right fun ⟨hc, hu⟩ => hkeep ?_
  simp only [decide_eq_true_eq]
  exact ⟨hu, EnvelopeRepository.mem_idsIn.mpr ⟨e, he, hc, hid⟩⟩

theorem Addressed.listDevices
    (h : Addressed K ⟨fun _ _ => False, (Owed.left conv u).queues⟩ s) :
    Addressed K (Owed.devices conv (DeviceRepository.getDevicesForUser u s.db)) s := by
  refine ⟨h.valid, h.separated, fun hK key q hq => ?_, h.rows⟩
  obtain ⟨dev, hdev, hkey, hf, hin⟩ := h.queued hK key q hq
  refine ⟨dev, hdev, hkey, hf, hin.imp_right fun ⟨hc, hu⟩ => ⟨hc, dev, ?_, rfl⟩⟩
  exact DeviceRepository.mem_getDevicesForUser.mpr ⟨hdev, hu⟩

theorem Addressed.purgeQueue {dev : DeviceRecord} {devs : List DeviceRecord}
    (h : Addressed K (Owed.devices conv (dev :: devs)) s) :
    Addressed K (Owed.devices conv devs) (Call.exec cfg
      (.delivery (.purgeConversationFromDeviceQueue conv dev.userId dev.deviceId)) s).2 := by
  have hs := h.shrink cfg
    (a := .purgeConversationFromDeviceQueue conv dev.userId dev.deviceId) rfl
    fun _ _ hq => mem_setQueue (fun _ h => List.mem_of_mem_filter h) hq
  refine ⟨hs.valid, hs.separated, fun hK key q hq => ?_, hs.rows⟩
  obtain ⟨dev', hdev', hkey, hf, hin⟩ := hs.queued hK key q hq
  refine ⟨dev', hdev', hkey, hf, hin.imp_right ?_⟩
  rintro ⟨hc, d, hd, hk⟩
  refine ⟨hc, d, (List.mem_cons.mp hd).resolve_left ?_, hk⟩
  -- the queue of the purged device holds nothing of the conversation
  rintro rfl
  obtain ⟨hu, hd⟩ : d.userId = dev'.userId ∧ d.deviceId = dev'.deviceId := Prod.mk.inj hk
  rw [← hu, ← hd] at hkey
  subst hkey
  have hq' : q ∈ (s.queues (deviceScopeKey d.userId d.deviceId)).filter
      (·.conversationId ≠ conv) := by
    simpa [Call.exec, DeliveryCall.exec, DeliveryManager.purgeConversationFromDeviceQueue,
      DeliveryManager.setQueue] using hq
  simpa [hc] using (List.mem_filter.mp hq').2

theorem Addressed.purgeQueues {devs : List DeviceRecord}
    (h : Addressed K (Owed.devices conv devs) s) :
    (ConversationService.purgeQueues conv devs).Ends (Call.exec cfg)
      (fun _ => Addressed K Owed.nothing) s := by
  induction devs generalizing s with
  | nil =>
    refine ⟨h.valid, h.separated, fun hK key q hq => ?_, h.rows⟩
    obtain ⟨dev, hdev, hkey, hf, hin⟩ := h.queued hK key q hq
    refine ⟨dev, hdev, hkey, hf, hin.imp_right ?_⟩
    rintro ⟨-, d, hd, -⟩
    cases hd
  | cons dev devs ih => exact ends_perform_bind.mpr (ih h.purgeQueue)

theorem Addressed.purgeMemberDelivery (h : Addressed K (Owed.left conv u) s) :
    (ConversationService.purgeMemberDelivery conv u).Ends (Call.exec cfg)
      (fun _ => Addressed K Owed.nothing) s :=
  ends_perform_bind.mpr (ends_perform_bind.mpr h.purgeRows.listDevices.purgeQueues)

theorem Addressed.removeMember (h : Addressed K Owed.nothing s) (a : UserId) :
    (ConversationService.removeMember conv a u).Ends (Call.exec cfg)
      (fun _ => Addressed K Owed.nothing) s := by
  refine ends_perform_bind.mpr ?_
  split
  · split
    · exact h
    split
    · exact h
    refine Ends.bind ((h.of_tame (calm_actorCanManageMembers _ a).tame).mono fun ok s h => ?_)
    split
    · exact h
    refine ends_perform_bind.mpr (ends_perform_bind.mpr ?_)
    split
    · rename_i he
      exact absurd (he.symm.trans (removeMember_ok conv u s.clock s.db)) (by simp)
    · refine Ends.bind (Addressed.purgeMemberDelivery ?_)
      exact h.leave fun k hk => by simpa [ConversationCall.leaves, eq_comm] using hk
  · exact h

theorem Addressed.unsubscribeChannel (h : Addressed K Owed.nothing s) :
    (ConversationService.unsubscribeChannel conv u).Ends (Call.exec cfg)
      (fun _ => Addressed K Owed.nothing) s := by
  refine ends_perform_bind.mpr ?_
  split
  · split
    · exact h
    refine ends_perform_bind.mpr ?_
    split
    · exact h
    refine ends_perform_bind.mpr (ends_perform_bind.mpr ?_)
    split
    · rename_i he
      exact absurd (he.symm.trans (unsubscribe_ok conv u s.clock s.db)) (by simp)
    · refine Ends.bind (Addressed.purgeMemberDelivery ?_)
      exact h.leave fun k hk => by simpa [ConversationCall.leaves, eq_comm] using hk
  · exact h

end Leaving

section Sending

variable {cfg : ServerConfig} {K : Prop} {s : Server} {q : QueuedEnvelope} {us : List UserId}

/-- The envelope is stored and its targets take part in the conversation. -/
structure Sending (K : Prop) (q : QueuedEnvelope) (us : List UserId) (s : Server) : Prop where
  addressed : Addressed K Owed.nothing s
  filed : Filed q s.db
  targets : ∀ u ∈ us, isUserInConversation q.conversationId u s.db

theorem Sending.call {c : Call} (h : Sending K q us s) (hr : ¬ c.removes)
    (hl : ∀ k, ¬ c.leaves k) (ha : Addressed K Owed.nothing (c.exec cfg s).2) :
    Sending K q us (c.exec cfg s).2 := by
  refine ⟨ha, ?_, fun u hu => ?_⟩
  · obtain ⟨e, he, h'⟩ := h.filed
    exact ⟨e, Call.exec_keeps_envelope cfg hr he, h'⟩
  · exact Call.exec_participant cfg h.addressed.valid (not_isAdmin_of_not_removes hr) (hl _)
      (h.targets u hu)

theorem Sending.fanOutDevices {u : UserId} {devs : List DeviceRecord} {n : ℕ} (hu : u ∈ us)
    (h : Sending K q us s) (hdevs : ∀ dev ∈ devs, dev ∈ s.db.devices ∧ dev.userId = u) :
    (RelayService.fanOutDevices q u devs n).Ends (Call.exec cfg) (fun _ => Sending K q us) s := by
  induction devs generalizing s n with
  | nil => exact h
  | cons dev devs ih =>
    have hrest := fun d (hd : d ∈ devs) => hdevs d (List.mem_cons_of_mem _ hd)
    obtain ⟨hmem, rfl⟩ := hdevs dev List.mem_cons_self
    unfold RelayService.fanOutDevices
    split
    · exact ih h hrest
    split
    · exact ih h hrest
    refine ends_perform_bind.mpr ?_
    have h₁ := h.call (c := .delivery (.enqueue dev.userId dev.deviceId q)) (by simp [Call.removes])
      (by simp [Call.leaves]) (h.addressed.enqueue cfg hmem h.filed (h.targets _ hu))
    have hdev₁ := (Call.exec_devices cfg (c := .delivery (.enqueue dev.userId dev.deviceId q))
      (s := s) (by simp) (by simp [Call.isAdmin])).1
    generalize (Call.exec cfg (.delivery (.enqueue dev.userId dev.deviceId q)) s).2 = s₁ at *
    split
    · exact ih h₁ (hdev₁ ▸ hrest)
    · refine ends_perform_bind.mpr (ih (h₁.call ?_ ?_ (h₁.addressed.persist ?_)) ?_)
      · simp [Call.removes]
      · simp [Call.leaves]
      · -- the stored envelope is the one that is sent
        intro env henv hid
        obtain ⟨e, he, hide, hconv⟩ := h₁.filed
        rw [h₁.addressed.valid.envelopes_pk.eq_of_mem henv he (hid.trans hide.symm), hconv]
        exact h₁.targets _ hu
      · rw [(Call.exec_devices cfg (by simp) (by simp [Call.isAdmin])).1, hdev₁]
        exact hrest

theorem Sending.fanOut {us' : List UserId} {n : ℕ} (hus : ∀ u ∈ us', u ∈ us)
    (h : Sending K q us s) :
    (RelayService.fanOut q us' n).Ends (Call.exec cfg) (fun _ => Sending K q us) s := by
  induction us' generalizing s n with
  | nil => exact h
  | cons u us' ih =>
    refine ends_perform_bind.mpr (Ends.bind ?_)
    refine (h.fanOutDevices (hus u List.mem_cons_self) fun dev hdev => ?_).mono fun n s h => ?_
    · exact DeviceRepository.mem_getDevicesForUser.mp hdev
    · exact ih (fun v hv => hus v (List.mem_cons_of_mem _ hv)) h

theorem authorize_ends (request : SendMessageRequest) (s : Server) :
    (RelayService.authorize request).Ends (Call.exec cfg) (fun r s' => s' = s ∧
      ∀ conv, r = .ok conv → findById request.conversationId s.db = some conv) s := by
  unfold RelayService.authorize
  split
  · exact ⟨rfl, by simp⟩
  refine ends_perform_bind.mpr ?_
  split
  · refine ends_perform_bind.mpr ?_
    split
    · rename_i conv hconv
      have hfind : ∀ conv', (.ok conv : Result ConversationRecord) = .ok conv' →
          findById request.conversationId s.db = some conv' := by
        rintro conv' ⟨⟩
        exact hconv
      refine ends_perform_bind.mpr ?_
      split
      · exact ⟨rfl, by simp⟩
      split
      · refine ends_perform_bind.mpr ?_
        split
        · exact ⟨rfl, by simp⟩
        split
        · exact ⟨rfl, hfind⟩
        refine ends_perform_bind.mpr ?_
        split
        · exact ⟨rfl, by simp⟩
        split
        · exact ⟨rfl, by simp⟩
        · exact ⟨rfl, hfind⟩
      · exact ⟨rfl, hfind⟩
    · exact ⟨rfl, by simp⟩
  · exact ⟨rfl, by simp⟩

theorem targetUsers_ends {conv : ConversationRecord} {c : ConversationId}
    (hc : findById c s.db = some conv) :
    (RelayService.targetUsers conv c).Ends (Call.exec cfg) (fun us s' => s' = s ∧
      ∀ u ∈ us, isUserInConversation c u s.db) s := by
  unfold RelayService.targetUsers
  split
  · rename_i ht
    refine ⟨rfl, fun u hu => ?_⟩
    obtain ⟨r, hr, hactive, rfl⟩ := mem_getSubscribers.mp hu
    simp only [isUserInConversation, hc, ht, List.any_eq_true, decide_eq_true_eq]
    exact ⟨r, hr, by simp [SubscriptionRow.key, hactive.1], hactive.2⟩
  · rename_i ht
    refine ends_perform_bind.mpr ⟨rfl, fun u hu => ?_⟩
    obtain ⟨m, hm, rfl⟩ := List.mem_map.mp hu
    simp only [Call.exec, Call.onDb, ConversationCall.exec, mem_getMembers] at hm
    unfold isUserInConversation
    rw [hc]
    dsimp only
    split
    · exact absurd ‹_› ht
    · simp only [List.any_eq_true, decide_eq_true_eq]
      exact ⟨m, hm.1, by simp [MemberRecord.key, hm.2.1], hm.2.2⟩

theorem Addressed.sendEnvelope (h : Addressed K Owed.nothing s) (request : SendMessageRequest)
    (uuid : String) : (RelayService.sendEnvelope cfg request uuid).Ends (Call.exec cfg)
      (fun _ => Addressed K Owed.nothing) s := by
  refine Ends.bind ((authorize_ends request s).mono fun r s' hr => ?_)
  obtain ⟨rfl, hfind⟩ := hr
  split
  · exact h
  rename_i conv
  dsimp only
  generalize (if request.envelopeId = "" then uuid else request.envelopeId) = envelopeId
  refine ends_perform_bind.mpr ?_
  split
  · exact h
  refine ends_perform_bind.mpr (ends_perform_bind.mpr ?_)
  let e := RelayService.newEnvelope cfg request envelopeId s'.clock
  have h₁ := h.store cfg e
  split
  · exact h₁
  rename_i hok
  have hdb : (EnvelopeRepository.storeEnvelope e s'.db).2 =
      { s'.db with encryptedEnvelopes := s'.db.encryptedEnvelopes ++ [e] } :=
    (EnvelopeRepository.insertEnvelope_ok (EnvelopeRepository.storeEnvelope_ok hok)).2.2.2
  have hfind₁ : findById request.conversationId
      (EnvelopeRepository.storeEnvelope e s'.db).2 = some conv := by
    rw [hdb, ← hfind conv rfl]
    rfl
  refine Ends.bind ((targetUsers_ends hfind₁).mono fun us s'' hus => ?_)
  obtain ⟨rfl, hus⟩ := hus
  refine Ends.bind ((Sending.fanOut (fun u (hu : u ∈ us) => hu) ⟨h₁, ⟨e, ?_, rfl, rfl⟩, hus⟩).mono
    fun _ _ h' => h'.addressed)
  have hmem : e ∈ (EnvelopeRepository.storeEnvelope e s'.db).2.encryptedEnvelopes := by
    rw [hdb]
    exact List.mem_append_right _ List.mem_cons_self
  exact hmem

end Sending

section Operations

variable {cfg : ServerConfig} {K : Prop} {s : Server}

theorem Addressed.register (h : Addressed K Owed.nothing s) (request : RegisterRequest)
    (salt : Option String) {u : UserId} (hu : K → kSep ∉ u.toList) (d : String)
    (fresh : FreshTokens) : (AuthService.register cfg request salt u d fresh).Ends (Call.exec cfg)
      (fun _ => Addressed K Owed.nothing) s := by
  refine (Op.only_register cfg (P := fun c => ∀ s, Addressed K Owed.nothing s →
    Addressed K Owed.nothing (c.exec cfg s).2) ?_ ?_ ?_ request salt d fresh).ends
    (fun c s hc h => hc s h) h
  · exact fun c hc s h => h.tame (Call.tame_of_calm hc)
  · rintro r rfl - s h
    exact h.createUser hu
  · exact fun _ _ s h => h.tame rfl

/-- The operations that neither deliver nor delete anything, and that nobody leaves by. -/
def stays : Op → Bool
  | .single _ => false
  | .register .. => false
  | .removeMember .. => false
  | .unsubscribeChannel .. => false
  | .sendEnvelope .. => false
  | .acknowledgeEnvelope .. => false
  | .deleteUser _ => false
  | .maintenance => false
  | _ => true

theorem Addressed.stays {o : Op} (ho : stays o) (h : Addressed K Owed.nothing s) :
    (o.code cfg).Ends (Call.exec cfg) (fun _ => Addressed K Owed.nothing) s := by
  refine (o.code_only cfg).ends (fun c s hc h => ?_) h
  unfold Op.mayCall at hc
  split at hc
  case h_3 | h_4 | h_5 | h_6 | h_17 =>
    exact h.routine rfl (by simp [Call.leaves, ConversationCall.leaves])
  case h_20 => exact h.tame hc
  all_goals cases ho

/-- The operations that keep the addresses, the queues included. -/
def participating : Op → Bool
  | .single (.delivery (.dequeue ..)) => true
  | .single (.delivery (.switchToOffline ..)) => true
  | .single c => c.tame
  | .register _ _ uuid _ _ => kSep ∉ uuid.toList
  | .deleteUser _ => false
  | .maintenance => false
  | _ => true

/-- The operations keep the addresses: those of the queues if no envelope and no user is deleted,
otherwise those of the stored deliveries if no queue is stored. -/
theorem Addressed.perform {o : Op} (h : Addressed K Owed.nothing s)
    (hs : ∀ c, o = .single c → c.tame ∨ (∃ u d n, c = .delivery (.dequeue u d n)) ∨
      K ∧ ∃ u d, c = .delivery (.switchToOffline u d))
    (hr : ∀ r salt u d f, o = .register r salt u d f → K → kSep ∉ u.toList)
    (hd : K → (∀ u, o ≠ .deleteUser u) ∧ o ≠ .maintenance) :
    (o.code cfg).Ends (Call.exec cfg) (fun _ => Addressed K Owed.nothing) s := by
  cases o with
  | single c =>
    rcases hs c rfl with hc | ⟨u, d, n, rfl⟩ | ⟨hK, u, d, rfl⟩
    · exact h.tame hc
    · exact h.dequeue cfg u d n
    · exact h.switchToOffline cfg hK u d
  | register r salt u d f => exact h.register r salt (hr r salt u d f rfl) d f
  | sendEnvelope r i => exact h.sendEnvelope r i
  | acknowledgeEnvelope u d e => exact ends_perform_bind.mpr (h.acked cfg e u d _)
  | removeMember c a u => exact h.removeMember a
  | unsubscribeChannel c u => exact h.unsubscribeChannel
  | deleteUser u => exact h.deleteUser (fun hK => (hd hK).1 u rfl) u
  | maintenance => exact ends_perform_bind.mpr (h.deleteExpired cfg (fun hK => (hd hK).2 rfl) _)
  | _ => exact h.stays rfl

theorem single_of_participating {c : Call} (h : participating (.single c)) :
    c.tame ∨ (∃ u d n, c = .delivery (.dequeue u d n)) ∨
      ∃ u d, c = .delivery (.switchToOffline u d) := by
  unfold participating at h
  split at h
  case h_1 hc => cases hc; exact .inr (.inl ⟨_, _, _, rfl⟩)
  case h_2 hc => cases hc; exact .inr (.inr ⟨_, _, rfl⟩)
  case h_3 hc => cases hc; exact .inl h
  all_goals simp_all

theorem Addressed.participating {o : Op} (ho : participating o)
    (h : Addressed True Owed.nothing s) :
    (o.code cfg).Ends (Call.exec cfg) (fun _ => Addressed True Owed.nothing) s := by
  refine h.perform ?_ ?_ ?_
  · rintro c rfl
    exact (single_of_participating ho).imp_right (.imp_right fun hc => ⟨trivial, hc⟩)
  · rintro r salt u d f rfl -
    exact of_decide_eq_true ho
  · refine fun _ => ⟨?_, ?_⟩
    · rintro u rfl
      cases ho
    · rintro rfl
      cases ho

end Operations

/-- In every state that operations reach one after another, what is queued for a device or stored
for it without an acknowledgement is of a conversation that its user takes part in. -/
theorem pending_only_for_participants (cfg : ServerConfig) {init s : Server}
    (hv : init.db.Valid) (hsep : Separated init) (hq : ∀ k, init.queues k = [])
    (hd : init.db.deliveryState = []) {acts : List (Op ⊕ Timestamp)}
    (hops : ∀ o, .inl o ∈ acts → participating o)
    (hrun : Machine.run (voxServer cfg).atOnce init acts = some s) :
    (∀ key, s.queues key ≠ [] → ∃ dev ∈ s.db.devices,
      key = deviceScopeKey dev.userId dev.deviceId) ∧
    (∀ dev ∈ s.db.devices, ∀ q ∈ s.queues (deviceScopeKey dev.userId dev.deviceId),
      isUserInConversation q.conversationId dev.userId s.db) ∧
    ∀ r ∈ s.db.deliveryState, r.ackedAt = none → ∀ e ∈ s.db.encryptedEnvelopes,
      e.envelopeId = r.envelopeId → isUserInConversation e.conversationId r.targetUserId s.db := by
  have h0 : Addressed True Owed.nothing init :=
    ⟨hv, fun _ => hsep, fun _ key q hmem => by simp [hq] at hmem, by simp [hd]⟩
  have h : Addressed True Owed.nothing s := by
    refine (voxServer cfg).atOnce_invariant (p := fun _ => Sum.elim participating fun _ => true)
      (fun s o h ho => h.participating ho) (fun s t h => ⟨h.1, h.2, h.3, h.4⟩) h0 hrun ?_
    refine Machine.always_of_forall _ (fun a ha _ => ?_) init
    cases a with
    | inl o => exact hops o ha
    | inr t => rfl
  refine ⟨fun key hne => ?_, fun dev hdev q hmem => ?_, fun r hr _ e he hid => ?_⟩
  · obtain ⟨q, hmem⟩ := List.exists_mem_of_ne_nil _ hne
    obtain ⟨dev, hdev, hkey, -⟩ := h.queued trivial key q hmem
    exact ⟨dev, hdev, hkey⟩
  · obtain ⟨dev', hdev', hkey, -, hin⟩ := h.queued trivial _ q hmem
    have hu : dev.userId = dev'.userId := ((deviceScopeKey_inj
      (h.separated_user trivial hdev) (h.separated_user trivial hdev')).mp hkey).1
    exact hu ▸ hin.resolve_right id
  · exact (h.rows r hr e he hid).resolve_right id

/-- Two envelopes for the second member, one stored and one queued. -/
def sendTwice : List (Op ⊕ Timestamp) :=
  [.inl (.sendEnvelope ⟨"a", "d", "c", "x", "e", 0, none⟩ ""),
    .inl (.single (.delivery (.switchToOffline "b" "d"))), .inr 1,
    .inl (.sendEnvelope ⟨"a", "d", "c", "x", "e'", 0, none⟩ "")]

theorem sendTwice_for_participants :
    (Machine.run (voxServer default).atOnce twoMembers sendTwice).any (fun s =>
      s.queues (deviceScopeKey "b" "d") ≠ [] ∧ s.db.deliveryState ≠ []) ∧
    ∀ s, Machine.run (voxServer default).atOnce twoMembers sendTwice = some s →
      ∀ dev ∈ s.db.devices, ∀ q ∈ s.queues (deviceScopeKey dev.userId dev.deviceId),
        isUserInConversation q.conversationId dev.userId s.db := by
  refine ⟨by decide, fun s hs => ?_⟩
  have hops : ∀ o, .inl o ∈ sendTwice → participating o := by simp [sendTwice, participating]
  exact (pending_only_for_participants default (by decide) (by decide) (fun _ => rfl) rfl hops
    hs).2.1

end VoxServer.Delivery
