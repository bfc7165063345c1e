import VoxServer.Delivery.NoLoss

/-! # Acknowledging an envelope

An acknowledgement updates the delivery state of the pair. A pair that was pushed or
dequeued has none, so only what came through the listing of pending envelopes can be
acknowledged. Once it is, the listing does not return it any more: a pair arrives at
most once, so nothing brings a second delivery state for it.
-/

namespace VoxServer.Delivery

open Interleaving Prog Table

/-- The id stands for one envelope: what has been stored under it is not stored again. -/
def StoredOnce (e : EnvelopeId) (init : Server) (tr : List Ev) : Prop :=
  Always (fun tr ev => Stores e ev →
    (∀ r ∈ init.db.encryptedEnvelopes, r.envelopeId ≠ e) ∧ ∀ ev' ∈ tr, ¬ Stores e ev') tr

def AckCall (p : Pair) (ev : Ev) : Prop :=
  ∃ now, ev.call = .envelopes (.markAcked p.1 p.2.1 p.2.2 now)

/-- The envelope is on a page of the listing of what is pending for the device. -/
def Listed (p : Pair) (db : Database) : Prop :=
  ∃ cursor limit, ∃ r ∈ (EnvelopeRepository.getPendingForDeviceCursored p.2.1 p.2.2 cursor limit
    db).envelopes, r.envelopeId = p.1

/-- The pair is in no queue, and its delivery state is acknowledged if it has one. -/
structure Acked (p : Pair) (s : Server) : Prop where
  queue : inQueue p s = 0
  rows : ∀ r ∈ s.db.deliveryState, r.key = p → r.ackedAt.isSome

section Calls

variable {cfg : ServerConfig} {p : Pair} {s : Server} {ev : Ev}

theorem Acked.not_listed (h : Acked p s) : ¬ Listed p s.db := by
  rintro ⟨cursor, limit, r, hr, hid⟩
  obtain ⟨-, row, hrow, hk, -, hack⟩ :=
    EnvelopeRepository.mem_pendingRows.mp (EnvelopeRepository.cursoredPage_subset hr)
  have hsome := h.rows row hrow (by rw [hk, hid])
  rw [hack] at hsome
  cases hsome

theorem inRows_addDeliveryState_le (e : EnvelopeId) (u : UserId) (d : DeviceId) (now : Timestamp)
    (db : Database) : inRows p (EnvelopeRepository.addDeliveryState e u d now db).2 ≤
      inRows p db + if (e, u, d) = p then 1 else 0 := by
  rcases EnvelopeRepository.addDeliveryState_cases e u d now db with he | he
  · rw [he]
    exact Nat.le_add_right _ _
  · rw [he, inRows_append]
    exact Nat.le_refl _

theorem inRows_persistPending_le (now : Timestamp) (qs : List QueuedEnvelope) (db : Database) :
    inRows p (DeliveryManager.persistPending p.2.1 p.2.2 now qs db) ≤
      inRows p db + qs.countP (·.envelopeId = p.1) := by
  induction qs generalizing db with
  | nil => exact Nat.le_refl _
  | cons q qs ih =>
    rw [DeliveryManager.persistPending, List.countP_cons]
    have hrest := ih (EnvelopeRepository.addDeliveryState q.envelopeId p.2.1 p.2.2 now db).2
    have hadd := inRows_addDeliveryState_le (p := p) q.envelopeId p.2.1 p.2.2 now db
    have hiff : ((q.envelopeId, p.2.1, p.2.2) = p) = (q.envelopeId = p.1) :=
      propext ⟨fun h => congrArg Prod.fst h, fun h => by rw [h]⟩
    simp only [hiff, decide_eq_true_eq] at hadd ⊢
    omega

theorem inRows_eq_count (p : Pair) (db : Database) :
    inRows p db = (db.deliveryState.map (·.key)).count p := by
  rw [inRows, List.count, List.countP_map]
  exact List.countP_congr fun r _ => by simp

theorem inRows_le_of_sublist {db db' : Database}
    (h : (db'.deliveryState.map (·.key)).Sublist (db.deliveryState.map (·.key))) :
    inRows p db' ≤ inRows p db := by
  rw [inRows_eq_count, inRows_eq_count]
  exact h.count_le p

theorem keys_sublist {a : EnvelopeCall} (ha : ∀ e u d now, a ≠ .addDeliveryState e u d now)
    (db : Database) :
    ((a.exec db).2.deliveryState.map (·.key)).Sublist (db.deliveryState.map (·.key)) := by
  have heff := a.exec_effect db
  generalize (a.exec db).2 = db' at heff ⊢
  cases heff with
  | same => exact List.Sublist.refl _
  | store e _ hins =>
    obtain ⟨-, -, -, rfl⟩ := EnvelopeRepository.insertEnvelope_ok hins
    exact List.Sublist.refl _
  | addState e u d now => exact absurd rfl (ha e u d now)
  | delivered =>
    rw [map_updateWhere]
    exact fun _ => rfl
  | acked =>
    rw [map_updateWhere]
    exact fun _ => rfl
  | purge => exact List.filter_sublist.map _
  | expire => exact List.filter_sublist.map _

theorem waiting_le (hown : ∀ k ∈ queueOf? ev.call, deviceScopeKey k.1 k.2 = queueKey p → k = p.2) :
    waiting p (ev.call.exec cfg ev.pre).2 ≤ waiting p ev.pre + arrivesBy cfg p ev := by
  have hsame : Accounts cfg p ev → waiting p (ev.call.exec cfg ev.pre).2 ≤
      waiting p ev.pre + arrivesBy cfg p ev := by
    unfold Accounts
    omega
  obtain ⟨i, c, s⟩ := ev
  cases c with
  | envelopes a =>
    by_cases hadd : ∃ e u d now, a = .addDeliveryState e u d now
    · obtain ⟨e, u, d, now, rfl⟩ := hadd
      have hrows := inRows_addDeliveryState_le (p := p) e u d now s.db
      have harr : arrivesBy cfg p ⟨i, .envelopes (.addDeliveryState e u d now), s⟩ =
          if (e, u, d) = p then 1 else 0 := by
        simp [arrivesBy, arrival?, accepted, persist?]
      rw [harr]
      show inQueue p s + inRows p (EnvelopeRepository.addDeliveryState e u d now s.db).2 ≤
        inQueue p s + inRows p s.db + _
      omega
    · have hrows : inRows p (a.exec s.db).2 ≤ inRows p s.db :=
        inRows_le_of_sublist (keys_sublist (by simpa using hadd) s.db)
      exact Nat.le_add_right_of_le (Nat.add_le_add_left hrows _)
  | delivery a =>
    cases hq : queueOf? (.delivery a) with
    | none =>
      cases a with
      | queueSize u d => exact Nat.le_add_right _ _
      | _ => cases hq
    | some k =>
      by_cases hk : k = p.2
      · obtain ⟨e, u, d⟩ := p
        cases a with
        | enqueue u' d' q => cases hq; cases hk; exact hsame (accounts_enqueue q)
        | dequeue u' d' n => cases hq; cases hk; exact hsame (accounts_dequeue n)
        | switchToOffline u' d' =>
          cases hq; cases hk
          have hrows := inRows_persistPending_le (p := (e, u, d)) s.clock
            (s.queues (deviceScopeKey u d)) s.db
          have hempty : inQueue (e, u, d) (DeliveryManager.switchToOffline u d s) = 0 :=
            inQueue_setQueue
          show inQueue (e, u, d) (DeliveryManager.switchToOffline u d s) +
            inRows (e, u, d) (DeliveryManager.persistPending u d s.clock
              (s.queues (deviceScopeKey u d)) s.db) ≤ (s.queues (deviceScopeKey u d)).countP
                (·.envelopeId = e) + inRows (e, u, d) s.db + 0
          simp only at hrows
          omega
        | purgeConversationFromDeviceQueue c u' d' =>
          cases hq; cases hk
          exact hsame (accounts_purgeQueue c)
        | queueSize u' d' => cases hq
      · exact hsame (accounts_delivery_of_ne hq (fun he => hk (hown k hq he)) hk)
  | admin a =>
    have hrows : inRows p (Call.exec cfg (.admin a) s).2.db ≤ inRows p s.db :=
      inRows_le_of_sublist ((Call.exec_deliveryState_sublist cfg (by simp) (by simp)).map _)
    exact Nat.le_add_right_of_le (Nat.add_le_add_left hrows _)
  | _ =>
    apply hsame
    refine accounts_of_same (inQueue_of_queues_eq (Call.exec_queues cfg (by simp))) ?_ rfl rfl rfl
    exact congrArg (List.countP _)
      (Call.exec_deliveryState cfg (by simp) (by simp) (by simp [Call.isAdmin]))

/-- A delivery state of the pair that is not acknowledged was there before, came with an arrival,
or was in the queue that is persisted. -/
theorem row_of_call {r : DeliveryStateRecord}
    (hr : r ∈ (ev.call.exec cfg ev.pre).2.db.deliveryState) (hk : r.key = p)
    (hack : r.ackedAt = none) :
    (∃ r₀ ∈ ev.pre.db.deliveryState, r₀.key = p ∧ r₀.ackedAt = none) ∨
      arrival? cfg ev = some p ∨ inQueue p ev.pre ≠ 0 := by
  obtain ⟨i, c, s⟩ := ev
  cases c with
  | envelopes a =>
    have heff : EnvelopeCall.Effect s.db a (Call.exec cfg (.envelopes a) s).2.db :=
      a.exec_effect s.db
    generalize (Call.exec cfg (.envelopes a) s).2.db = db' at heff hr
    cases heff with
    | same => exact .inl ⟨r, hr, hk, hack⟩
    | store e _ hins =>
      obtain ⟨-, -, -, rfl⟩ := EnvelopeRepository.insertEnvelope_ok hins
      exact .inl ⟨r, hr, hk, hack⟩
    | addState e u d now _ hins =>
      obtain ⟨-, -, -, rfl⟩ := EnvelopeRepository.insertDeliveryState_ok hins
      rcases List.mem_append.mp hr with hr | hr
      · exact .inl ⟨r, hr, hk, hack⟩
      · rw [List.mem_singleton.mp hr] at hk
        exact .inr (.inl (congrArg some hk))
    | delivered e u d now =>
      obtain ⟨r₀, hr₀, rfl⟩ := mem_updateWhere.mp hr
      refine .inl ⟨r₀, hr₀, ?_⟩
      split at hk
      · rename_i hc
        rw [if_pos hc] at hack
        exact ⟨hk, hack⟩
      · rename_i hc
        rw [if_neg hc] at hack
        exact ⟨hk, hack⟩
    | acked e u d now =>
      obtain ⟨r₀, hr₀, rfl⟩ := mem_updateWhere.mp hr
      split at hk
      · rename_i hc
        rw [if_pos hc] at hack
        cases hack
      · rename_i hc
        rw [if_neg hc] at hack
        exact .inl ⟨r₀, hr₀, hk, hack⟩
    | purge => exact .inl ⟨r, (mem_deleteWhere.mp hr).1, hk, hack⟩
    | expire => exact .inl ⟨r, (mem_deleteWhere.mp hr).1, hk, hack⟩
  | delivery a =>
    rcases a.exec_db cfg.maxQueueDepthPerDevice s with he | ⟨u, d, qs, rfl, -⟩
    · exact .inl ⟨r, he ▸ hr, hk, hack⟩
    · rcases DeliveryManager.mem_persistPending hr with hr | ⟨⟨q, hq, hid⟩, rfl, rfl, -⟩
      · exact .inl ⟨r, hr, hk, hack⟩
      · subst hk
        refine .inr (.inr fun h0 => ?_)
        exact List.countP_eq_zero.mp h0 q hq (decide_eq_true hid)
  | _ =>
    have hr := (Call.exec_deliveryState_sublist cfg (by simp) (by simp)).subset hr
    exact .inl ⟨r, hr, hk, hack⟩

theorem inQueue_setQueue_le {key : String} {qs : List QueuedEnvelope}
    (h : qs.Sublist (s.queues key)) :
    inQueue p (DeliveryManager.setQueue key qs s) ≤ inQueue p s := by
  by_cases hk : key = queueKey p
  · subst hk
    rw [inQueue_setQueue]
    exact h.countP_le
  · rw [inQueue_setQueue_of_ne hk]

theorem inQueue_of_call
    (hown : ∀ k ∈ queueOf? ev.call, deviceScopeKey k.1 k.2 = queueKey p → k = p.2)
    (h : inQueue p (ev.call.exec cfg ev.pre).2 ≠ 0) :
    inQueue p ev.pre ≠ 0 ∨ arrival? cfg ev = some p := by
  obtain ⟨i, c, s⟩ := ev
  by_cases hd : ∃ a, c = .delivery a
  · obtain ⟨a, rfl⟩ := hd
    cases a with
    | enqueue u d q =>
      rcases DeliveryManager.enqueue_cases cfg.maxQueueDepthPerDevice u d q s with
        he | ⟨hok, -, hqs⟩
      · left
        simpa only [Call.exec, DeliveryCall.exec, he] using h
      have hin : inQueue p (Call.exec cfg (.delivery (.enqueue u d q)) s).2 = inQueue p
          (DeliveryManager.setQueue (deviceScopeKey u d)
            (s.queues (deviceScopeKey u d) ++ [q]) s) := inQueue_of_queues_eq hqs
      by_cases hk : deviceScopeKey u d = queueKey p
      · have hkey := hown (u, d) rfl hk
        by_cases he : q.envelopeId = p.1
        · right
          have hacc : accepted cfg ⟨i, .delivery (.enqueue u d q), s⟩ = true := by
            simpa [accepted] using hok
          have hpair : (q.envelopeId, u, d) = p := Prod.ext he hkey
          rw [arrival?, hacc, if_pos rfl]
          exact congrArg some hpair
        · left
          rw [hin, hk, inQueue_setQueue] at h
          simpa [he, inQueue] using h
      · left
        rwa [hin, inQueue_setQueue_of_ne hk] at h
    | dequeue u d n =>
      have hle := inQueue_setQueue_le (p := p) (List.drop_sublist
        (min n (s.queues (deviceScopeKey u d)).length) (s.queues (deviceScopeKey u d)))
      exact .inl fun h0 => h (Nat.le_zero.mp (h0 ▸ hle))
    | switchToOffline u d =>
      have hle := inQueue_setQueue_le (p := p) (s := { s with
        db := DeliveryManager.persistPending u d s.clock (s.queues (deviceScopeKey u d)) s.db })
        (List.nil_sublist (s.queues (deviceScopeKey u d)))
      exact .inl fun h0 => h (Nat.le_zero.mp (h0 ▸ hle))
    | purgeConversationFromDeviceQueue c u d =>
      have hle : inQueue p (DeliveryManager.purgeConversationFromDeviceQueue c u d s) ≤
          inQueue p s := inQueue_setQueue_le List.filter_sublist
      exact .inl fun h0 => h (Nat.le_zero.mp (h0 ▸ hle))
    | queueSize u d => exact .inl h
  · left
    rwa [inQueue_of_queues_eq (Call.exec_queues cfg (not_exists.mp hd))] at h

theorem Acked.call (h : Acked p ev.pre)
    (hown : ∀ k ∈ queueOf? ev.call, deviceScopeKey k.1 k.2 = queueKey p → k = p.2)
    (harr : arrival? cfg ev ≠ some p) : Acked p (ev.call.exec cfg ev.pre).2 := by
  constructor
  · by_contra hq
    rcases inQueue_of_call hown hq with hq | ha
    · exact hq h.queue
    · exact harr ha
  · intro r hr hk
    by_contra hnone
    replace hnone : r.ackedAt = none := by simpa using hnone
    rcases row_of_call hr hk hnone with ⟨r₀, hr₀, hk₀, hack⟩ | ha | hq
    · have hsome := h.rows r₀ hr₀ hk₀
      rw [hack] at hsome
      cases hsome
    · exact harr ha
    · exact hq h.queue

theorem acked_of_ackCall (h : AckCall p ev) (hq : inQueue p ev.pre = 0) :
    Acked p (ev.call.exec cfg ev.pre).2 := by
  obtain ⟨i, c, s⟩ := ev
  obtain ⟨now, rfl⟩ := h
  constructor
  · exact hq
  · intro r hr hk
    replace hr : r ∈ (EnvelopeRepository.markAcked p.1 p.2.1 p.2.2 now s.db).2.deliveryState := hr
    rw [EnvelopeRepository.markAcked, EnvelopeCall.updateDelivery_snd] at hr
    obtain ⟨r₀, hr₀, rfl⟩ := mem_updateWhere.mp hr
    split at hk
    · rename_i hc
      rw [if_pos hc]
      rfl
    · rename_i hc
      exact absurd (decide_eq_true hk) hc

theorem markAcked_ok_iff {e : EnvelopeId} {u : UserId} {d : DeviceId} {now : Timestamp}
    {db : Database} : (EnvelopeRepository.markAcked e u d now db).1 = .ok () ↔
      ∃ r ∈ db.deliveryState, r.key = (e, u, d) := by
  constructor
  · intro hok
    by_contra hnone
    push Not at hnone
    have hcount : db.deliveryState.countP (·.key = (e, u, d)) = 0 := inRows_eq_zero.mpr hnone
    simp [EnvelopeRepository.markAcked, EnvelopeRepository.updateDelivery, hcount] at hok
  · rintro ⟨r, hr, hk⟩
    exact EnvelopeRepository.markAcked_ok hr hk

end Calls

section Run

variable {cfg : ServerConfig} {init : Server} {acts : List Act} {p : Pair} (hv : init.db.Valid)
  (hsep : Separated init) (hops : ∀ o, .spawn o ∈ acts → regular o)

section Once

variable (honce : StoredOnce p.1 init (serve cfg init acts).trace)
include honce

theorem tid_eq_of_storedOnce : ∀ ev ∈ (serve cfg init acts).trace,
    ∀ ev' ∈ (serve cfg init acts).trace, Stores p.1 ev → Stores p.1 ev' → ev.tid = ev'.tid := by
  intro ev hev ev' hev' hs hs'
  by_contra hne
  rcases honce.of_ne hev hev' (fun h => hne (congrArg Event.tid h)) with ⟨m, hm, h⟩ | ⟨m, hm, h⟩
  · exact (h hs').2 ev hm hs
  · exact (h hs).2 ev' hm hs'

include hv hops in
theorem waiting_add_arrivals_le_one (hq : ∀ k, init.queues k = []) :
    waiting p init + (arrivals cfg (serve cfg init acts).trace).count p ≤ 1 := by
  have hfan : ∀ i, Always (FanStep cfg) (localTrace i (serve cfg init acts).trace) :=
    fanStep_of_regular hv hops
  have hqueue : inQueue p init = 0 := by simp [inQueue, hq]
  by_cases hp : p ∈ arrivals cfg (serve cfg init acts).trace
  · have hle := count_arrivals_le_one hfan (tid_eq_of_storedOnce honce)
    obtain ⟨ev, hev, ha⟩ := List.mem_filterMap.mp hp
    obtain ⟨tr₁, tr₂, htr⟩ := List.append_of_mem hev
    obtain ⟨⟨ev', hev', hs⟩, -⟩ := served_of_arrival hfan htr ha
    obtain ⟨m₁, m₂, rfl⟩ := List.append_of_mem (mem_of_mem_localTrace hev').1
    rw [StoredOnce, htr, List.append_assoc, List.cons_append] at honce
    have hrows : inRows p init.db = 0 := by
      refine inRows_eq_zero.mpr ?_
      rintro r hr rfl
      obtain ⟨env, henv, hid⟩ := hv.delivery_envelope r hr
      exact (honce.at hs).1 env henv hid
    rw [waiting, hqueue, hrows]
    omega
  · have hrows : inRows p init.db ≤ 1 := by
      rw [inRows_eq_count]
      exact List.nodup_iff_count_le_one.mp hv.delivery_pk p
    rw [List.count_eq_zero.mpr hp, waiting, hqueue]
    omega

end Once

include hv hsep hops in
theorem ownQueue_run (hu : kSep ∉ p.2.1.toList) : ∀ ev ∈ (serve cfg init acts).trace,
    ∀ k ∈ queueOf? ev.call, deviceScopeKey k.1 k.2 = queueKey p → k = p.2 := by
  intro ev hev k hk he
  obtain ⟨h₁, h₂⟩ := (deviceScopeKey_inj (separated_queue hv hsep hops hev hk) hu).mp he
  exact Prod.ext h₁ h₂

section Pair

variable (hown : ∀ ev ∈ (serve cfg init acts).trace,
  ∀ k ∈ queueOf? ev.call, deviceScopeKey k.1 k.2 = queueKey p → k = p.2)
include hown

/-- Before each call, no more of the pair waits than was there at the start or has arrived. -/
theorem waiting_run : Always (fun tr ev => waiting p ev.pre ≤
    waiting p init + (arrivals cfg tr).count p) (serve cfg init acts).trace := by
  refine ((voxServer cfg).always_invariant (always_of_mem hown)
    (I := fun tr s => waiting p s ≤ waiting p init + (arrivals cfg tr).count p) ?_ ?_ ?_).2
  · exact Nat.le_add_right _ _
  · intro tr s i c hc h
    have hle : waiting p (c.exec cfg s).2 ≤ waiting p s + arrivesBy cfg p ⟨i, c, s⟩ :=
      waiting_le hc
    rw [count_arrivals_snoc]
    exact hle.trans (by omega)
  · exact fun tr s e h => h

/-- What has been acknowledged while it was in no queue stays so if it does not arrive again. -/
theorem acked_run {tr₁ tr₂ : List Ev} {ev : Ev}
    (htr : (serve cfg init acts).trace = tr₁ ++ ev :: tr₂) (hack : AckCall p ev)
    (hq : inQueue p ev.pre = 0) (harr : ∀ ev' ∈ tr₂, arrival? cfg ev' ≠ some p) :
    (∀ ev' ∈ tr₂, Acked p ev'.pre) ∧ Acked p (serve cfg init acts).state := by
  have hinv := (voxServer cfg).always_invariant (always_of_mem hown)
    (I := fun tr s => ∀ l₁ a l₂, tr = l₁ ++ a :: l₂ → AckCall p a → inQueue p a.pre = 0 →
      (∀ b ∈ l₂, arrival? cfg b ≠ some p) → Acked p s) (by simp) ?_ ?_
  · constructor
    · intro ev' hev'
      obtain ⟨m₁, m₂, rfl⟩ := List.append_of_mem hev'
      have hmid := hinv.2
      rw [htr, ← List.cons_append, ← List.append_assoc] at hmid
      refine hmid.at tr₁ ev m₁ rfl hack hq fun b hb => ?_
      exact harr b (List.mem_append_left _ hb)
    · exact hinv.1 tr₁ ev tr₂ htr hack hq harr
  · intro tr s i c hc ih l₁ a l₂ he hack hq harr
    rcases snoc_eq_append_cons he with ⟨rfl, rfl, rfl⟩ | ⟨m, rfl, rfl⟩
    · exact acked_of_ackCall hack hq
    · have hm := ih l₁ a m rfl hack hq fun b hb => harr b (List.mem_append_left _ hb)
      exact hm.call hc (harr _ (by simp))
  · intro tr s e ih l₁ a l₂ he hack hq harr
    have hs := ih l₁ a l₂ he hack hq harr
    exact ⟨hs.queue, hs.rows⟩

end Pair

include hv hsep hops in
theorem arrived_of_row (hq : ∀ k, init.queues k = [])
    (honce : StoredOnce p.1 init (serve cfg init acts).trace) {tr₁ tr₂ : List Ev} {ev : Ev}
    (htr : (serve cfg init acts).trace = tr₁ ++ ev :: tr₂)
    (hrow : ∃ row ∈ ev.pre.db.deliveryState, row.key = p) (hu : kSep ∉ p.2.1.toList) :
    inQueue p ev.pre = 0 ∧ ∀ ev' ∈ tr₂, arrival? cfg ev' ≠ some p := by
  have hwait : waiting p ev.pre ≤ waiting p init + (arrivals cfg tr₁).count p :=
    (htr ▸ waiting_run (ownQueue_run hv hsep hops hu)).at
  have htotal := waiting_add_arrivals_le_one hv hops honce hq
  have hsplit : arrivals cfg (tr₁ ++ ev :: tr₂) = arrivals cfg tr₁ ++ arrivals cfg (ev :: tr₂) :=
    List.filterMap_append
  have hrows : 0 < inRows p ev.pre.db := by
    obtain ⟨row, hmem, hk⟩ := hrow
    exact List.countP_pos_iff.mpr ⟨row, hmem, decide_eq_true hk⟩
  rw [htr, hsplit, List.count_append] at htotal
  unfold waiting at hwait htotal
  constructor
  · omega
  · intro ev' hev' ha
    have hmem : p ∈ arrivals cfg (ev :: tr₂) :=
      List.mem_filterMap.mpr ⟨ev', List.mem_cons_of_mem _ hev', ha⟩
    have hpos := List.count_pos_iff.mpr hmem
    omega

end Run

/-- What an acknowledgement has done when it returns: its update of the delivery state decided its
result. -/
theorem ackCall_of_finished {cfg : ServerConfig} {init : Server} {acts : List Act} {i : ℕ}
    {u : UserId} {d : DeviceId} {e : EnvelopeId} {r : VoidResult}
    (hi : (serve cfg init acts).threads[i]? = some ⟨.acknowledgeEnvelope u d e, .ret r⟩) :
    ∃ ev ∈ localTrace i (serve cfg init acts).trace, ∃ now,
      ev.call = .envelopes (.markAcked e u d now) ∧
        (EnvelopeRepository.markAcked e u d now ev.pre.db).1 = r := by
  have hspec : (RelayService.acknowledgeEnvelope u d e).Spec (Call.exec cfg) (fun _ => True)
      (fun _ _ => True) (fun es r => ∃ ev ∈ es, ∃ now,
        ev.call = .envelopes (.markAcked e u d now) ∧
          (EnvelopeRepository.markAcked e u d now ev.pre.db).1 = r) [] := by
    refine spec_perform_bind.mpr fun i s _ => ⟨trivial, ?_⟩
    refine spec_perform_bind.mpr fun i s' _ => ⟨trivial, ?_⟩
    exact ⟨_, List.mem_append_right _ (.head _), _, rfl, rfl⟩
  exact ((voxServer cfg).spec_run (fun _ _ => trivial) hi hspec).2

/-- An acknowledgement succeeds, and its envelope is not listed for the device in any later state,
exactly if the pair has a delivery state when the acknowledgement is written. -/
theorem acknowledged_iff_row (cfg : ServerConfig) {init : Server} (hv : init.db.Valid)
    (hsep : Separated init) (hq : ∀ k, init.queues k = []) {acts : List Act}
    (hops : ∀ o, .spawn o ∈ acts → regular o) {e : EnvelopeId}
    (honce : StoredOnce e init (serve cfg init acts).trace) {i : ℕ} {u : UserId} {d : DeviceId}
    {r : VoidResult}
    (hi : (serve cfg init acts).threads[i]? = some ⟨.acknowledgeEnvelope u d e, .ret r⟩) :
    ∃ tr₁ ev tr₂, (serve cfg init acts).trace = tr₁ ++ ev :: tr₂ ∧ ev.tid = i ∧
      AckCall (e, u, d) ev ∧
      ((r = .ok () ∧ (∀ ev' ∈ tr₂, ¬ Listed (e, u, d) ev'.pre.db) ∧
          ¬ Listed (e, u, d) (serve cfg init acts).state.db) ↔
        ∃ row ∈ ev.pre.db.deliveryState, row.key = (e, u, d)) := by
  obtain ⟨ev, hev, now, hcall, hres⟩ := ackCall_of_finished hi
  obtain ⟨hmem, htid⟩ := mem_of_mem_localTrace hev
  obtain ⟨tr₁, tr₂, htr⟩ := List.append_of_mem hmem
  have hok : (EnvelopeRepository.markAcked e u d now ev.pre.db).1 = .ok () ↔
      ∃ row ∈ ev.pre.db.deliveryState, row.key = (e, u, d) := markAcked_ok_iff
  rw [hres] at hok
  refine ⟨tr₁, ev, tr₂, htr, htid, ⟨now, hcall⟩, ?_⟩
  constructor
  · rintro ⟨hr, -⟩
    exact hok.mp hr
  · intro hrow
    have hu : kSep ∉ u.toList := by
      obtain ⟨row, hr, hk⟩ := hrow
      have hvalid := (serve_valid cfg hv acts).2 ev hmem
      obtain ⟨dev, hdev, hkey⟩ := hvalid.delivery_device row hr
      obtain ⟨usr, husr, hid⟩ := hvalid.devices_user dev hdev
      have hdu : dev.userId = u := (congrArg Prod.fst hkey).trans (congrArg (·.2.1) hk)
      rw [← hdu, ← hid]
      exact separated_run hsep hops ev hmem usr husr
    obtain ⟨hqueue, harr⟩ := arrived_of_row hv hsep hops hq honce htr hrow hu
    obtain ⟨hlater, hlast⟩ :=
      acked_run (ownQueue_run hv hsep hops hu) htr ⟨now, hcall⟩ hqueue harr
    exact ⟨hok.mpr hrow, fun ev' hev' => (hlater ev' hev').not_listed, hlast.not_listed⟩

/-- A server that queues nothing, so that every envelope is persisted. -/
def noQueues : ServerConfig := { (default : ServerConfig) with maxQueueDepthPerDevice := 0 }

def sendThenAck : List Act :=
  sendOnce ++ .run 0 :: .spawn (.acknowledgeEnvelope "b" "d" "e") :: List.replicate 2 (.run 1)

/-- Whether the call stored an envelope under the id, as a check. -/
def stores (e : EnvelopeId) (ev : Ev) : Bool :=
  match ev.call with
  | .envelopes (.storeEnvelope env) =>
    env.envelopeId = e ∧ (EnvelopeRepository.storeEnvelope env ev.pre.db).1 = .ok ()
  | _ => false

theorem stores_iff {e : EnvelopeId} {ev : Ev} : stores e ev ↔ Stores e ev := by
  unfold stores Stores
  split
  · rename_i env hc
    simp [hc]
  · rename_i hne
    simp only [Bool.false_eq_true, false_iff]
    rintro ⟨env, hc, -⟩
    exact hne env hc

instance (e : EnvelopeId) (ev : Ev) : Decidable (Stores e ev) := decidable_of_iff _ stores_iff

theorem sendThenAck_acknowledged :
    (serve noQueues twoMembers sendThenAck).threads[1]? =
      some ⟨.acknowledgeEnvelope "b" "d" "e", .ret (.ok ())⟩ ∧
    ¬ Listed ("e", "b", "d") (serve noQueues twoMembers sendThenAck).state.db := by
  have hi : (serve noQueues twoMembers sendThenAck).threads[1]? =
      some ⟨.acknowledgeEnvelope "b" "d" "e", .ret (.ok ())⟩ := rfl
  have hops : ∀ o, .spawn o ∈ sendThenAck → regular o := by
    simp [sendThenAck, sendOnce, List.replicate, regular, conserving]
  have honce : StoredOnce "e" twoMembers (serve noQueues twoMembers sendThenAck).trace := by
    unfold StoredOnce
    decide
  have hrow : ∀ ev ∈ (serve noQueues twoMembers sendThenAck).trace, ev.tid = 1 →
      ∃ row ∈ ev.pre.db.deliveryState, row.key = ("e", "b", "d") := by decide
  have hv : twoMembers.db.Valid := by decide
  have hsep : Separated twoMembers := by decide
  have hack := acknowledged_iff_row noQueues hv hsep (fun _ => rfl) hops honce hi
  generalize (serve noQueues twoMembers sendThenAck).trace = tr at hack hrow
  obtain ⟨tr₁, ev, tr₂, rfl, htid, -, hiff⟩ := hack
  exact ⟨hi, (hiff.mpr (hrow ev (List.mem_append_right _ (.head _)) htid)).2.2⟩

/-- The second member gets the envelope by a push and once more from the queue, and acknowledges
it. -/
def sendDequeueAck : List Act :=
  sendOnce ++ [.spawn (.single (.delivery (.dequeue "b" "d" 1))), .run 1] ++
    .spawn (.acknowledgeEnvelope "b" "d" "e") :: List.replicate 2 (.run 2)

/-- The envelope is stored and not expired, and its receiver is a member, but there is nothing to
acknowledge. -/
theorem received_not_acknowledged :
    ((serve default connectedMember sendDequeueAck).state.pushed =
      [⟨deviceScopeKey "b" "d", 7, .envelope ⟨"e", "c", "a", "d", "x", 0, 0, none⟩⟩]) ∧
    (serve default connectedMember sendDequeueAck).threads[1]? =
      some ⟨.single (.delivery (.dequeue "b" "d" 1)),
        .ret [⟨"e", "c", "a", "d", "x", 0, 0, none⟩]⟩ ∧
    (∃ r ∈ (serve default connectedMember sendDequeueAck).state.db.encryptedEnvelopes,
      r.envelopeId = "e" ∧ EnvelopeRepository.expired 0 r = false) ∧
    ConversationRepository.isUserInConversation "c" "b"
      (serve default connectedMember sendDequeueAck).state.db ∧
    (serve default connectedMember sendDequeueAck).threads[2]? =
      some ⟨.acknowledgeEnvelope "b" "d" "e",
        .ret (.error ⟨.notFound, "Delivery state not found"⟩)⟩ :=
  ⟨by decide, rfl, by decide, by decide, rfl⟩

end VoxServer.Delivery
