import VoxServer.Interleaving.Spec
import VoxServer.Server.Wiring

/-! # The fan-out of an envelope

What the calls of one operation say about the pairs of envelope and device that it
serves. A send tries to queue each of its pairs once, after it has stored the
envelope and listed the device; a pair whose queue is full is persisted by the very
next call. This holds whatever other operations do between the calls.
-/

namespace VoxServer.Delivery

open Interleaving Prog

abbrev Pair := EnvelopeId × UserId × DeviceId

def attempt? (ev : Ev) : Option Pair :=
  match ev.call with
  | .delivery (.enqueue u d q) => some (q.envelopeId, u, d)
  | _ => none

/-- Whether a call puts its pair into the queue, which it does unless the queue is full. -/
def accepted (cfg : ServerConfig) (ev : Ev) : Bool :=
  match ev.call with
  | .delivery (.enqueue u d q) =>
    (DeliveryManager.enqueue cfg.maxQueueDepthPerDevice u d q ev.pre).1 = .ok ()
  | _ => false

def persist? (ev : Ev) : Option Pair :=
  match ev.call with
  | .envelopes (.addDeliveryState e u d _) => some (e, u, d)
  | _ => none

def attempts (es : List Ev) : List Pair := es.filterMap attempt?

def queuedPairs (cfg : ServerConfig) (es : List Ev) : List Pair :=
  (es.filter (accepted cfg)).filterMap attempt?

/-- The pair that the last call found no room for. -/
def owed (cfg : ServerConfig) (es : List Ev) : Option Pair :=
  es.getLast?.bind fun ev => if accepted cfg ev then none else attempt? ev

def Stores (e : EnvelopeId) (ev : Ev) : Prop :=
  ∃ env, ev.call = .envelopes (.storeEnvelope env) ∧ env.envelopeId = e ∧
    (EnvelopeRepository.storeEnvelope env ev.pre.db).1 = .ok ()

def Lists (u : UserId) (d : DeviceId) (ev : Ev) : Prop :=
  ev.call = .devices (.getDevicesForUser u) ∧
    ∃ dev ∈ DeviceRepository.getDevicesForUser u ev.pre.db, dev.deviceId = d

def listsParticipants (c : ConversationId) (call : Call) : Bool :=
  call = .conversations (.getSubscribers c) ∨ call = .conversations (.getMembers c)

/-- What a call of an operation may do after the calls `es` of the same operation. -/
def FanStep (cfg : ServerConfig) (es : List Ev) (ev : Ev) : Prop :=
  match ev.call with
  | .delivery (.enqueue u d q) =>
    owed cfg es = none ∧ (q.envelopeId, u, d) ∉ attempts es ∧
      (∃ ev' ∈ es, Stores q.envelopeId ev') ∧
      After (fun ev' => listsParticipants q.conversationId ev'.call) (Lists u d) es
  | .delivery (.purgeConversationFromDeviceQueue _ u d) =>
    owed cfg es = none ∧ ∃ ev' ∈ es, Lists u d ev'
  | .envelopes (.addDeliveryState e u d _) => owed cfg es = some (e, u, d)
  | _ => owed cfg es = none

section Traces

variable (cfg : ServerConfig) (es : List Ev) (ev : Ev)

@[simp] theorem attempts_snoc : attempts (es ++ [ev]) = attempts es ++ (attempt? ev).toList := by
  rw [attempts, List.filterMap_append, ← attempts]
  cases h : attempt? ev <;> simp [h]

@[simp] theorem queuedPairs_snoc : queuedPairs cfg (es ++ [ev]) =
    queuedPairs cfg es ++ if accepted cfg ev then (attempt? ev).toList else [] := by
  unfold queuedPairs
  rw [List.filter_append, List.filterMap_append]
  cases ha : accepted cfg ev <;> cases h : attempt? ev <;> simp [ha, h]

@[simp] theorem owed_snoc :
    owed cfg (es ++ [ev]) = if accepted cfg ev then none else attempt? ev := by
  simp [owed]

variable {cfg es}

theorem mem_attempts_of_owed {p : Pair} (h : owed cfg es = some p) : p ∈ attempts es := by
  obtain ⟨ev, hev, hp⟩ := Option.bind_eq_some_iff.mp h
  split at hp
  · cases hp
  · exact List.mem_filterMap.mpr ⟨ev, List.mem_of_getLast? hev, hp⟩

theorem owed_of_attempts_eq_nil (h : attempts es = []) : owed cfg es = none := by
  cases ho : owed cfg es with
  | none => rfl
  | some p => simpa [h] using mem_attempts_of_owed ho

theorem queuedPairs_of_attempts_eq_nil (h : attempts es = []) : queuedPairs cfg es = [] :=
  List.sublist_nil.mp (h ▸ List.filter_sublist.filterMap attempt?)

end Traces

def plain : Call → Bool
  | .delivery (.enqueue ..) => false
  | .delivery (.purgeConversationFromDeviceQueue ..) => false
  | .envelopes (.addDeliveryState ..) => false
  | _ => true

section Plain

variable {cfg : ServerConfig} {es : List Ev} {c : Call}

theorem attempt?_of_plain (hc : plain c) (i : ℕ) (s : Server) : attempt? ⟨i, c, s⟩ = none := by
  unfold attempt?
  split
  · rename_i he
    obtain rfl : c = _ := he
    cases hc
  · rfl

theorem fanStep_of_plain (hc : plain c) (h : owed cfg es = none) (i : ℕ) (s : Server) :
    FanStep cfg es ⟨i, c, s⟩ := by
  unfold FanStep
  split
  case h_4 => exact h
  all_goals
    rename_i he
    obtain rfl : c = _ := he
    cases hc

/-- The condition on the server under which the calls are made. -/
abbrev Sound (s : Server) : Prop := s.db.Valid

/-- The program keeps to the order of a fan-out, and its result meets `Post`. -/
abbrev Fans {α : Type} (cfg : ServerConfig) (Post : List Ev → α → Prop) (p : ServerProg α)
    (es : List Ev) : Prop :=
  p.Spec (Call.exec cfg) Sound (FanStep cfg) Post es

theorem fans_ask_bind {α : Type} {Post : List Ev → α → Prop} {f : c.Reply → ServerProg α}
    (hc : plain c) (h : attempts es = [])
    (hf : ∀ i s, Sound s → attempts (es ++ [⟨i, c, s⟩]) = [] →
      Fans cfg Post (f (c.exec cfg s).1) (es ++ [⟨i, c, s⟩])) :
    Fans cfg Post (ask c >>= f) es := by
  intro i s hs
  refine ⟨fanStep_of_plain hc (owed_of_attempts_eq_nil h) i s, hf i s hs ?_⟩
  rw [attempts_snoc, h, attempt?_of_plain hc]
  rfl

theorem plain_of_routine (c : Call) (hc : c.routine) : plain c := by
  unfold plain
  split
  case h_4 => rfl
  all_goals cases hc

theorem fans_of_plain {α : Type} {p : ServerProg α} (hp : p.Only (plain ·)) (h : attempts es = []) :
    Fans cfg (fun es _ => attempts es = []) p es := by
  refine hp.spec (fun es i c s hc h => ⟨?_, ?_⟩) h
  · exact fanStep_of_plain hc (owed_of_attempts_eq_nil h) i s
  · rw [attempts_snoc, h, attempt?_of_plain hc]
    rfl

theorem fans_of_routine {α : Type} {p : ServerProg α} (hp : Routine p) (h : attempts es = []) :
    Fans cfg (fun es _ => attempts es = []) p es :=
  fans_of_plain (hp.mono plain_of_routine) h

end Plain

/-- Whether the fan-out of an envelope is for the device: not revoked, and not the sender. -/
def eligible (q : QueuedEnvelope) (dev : DeviceRecord) : Bool :=
  ¬ dev.revokedAt.isSome ∧ ¬ (dev.userId = q.senderUserId ∧ dev.deviceId = q.senderDeviceId)

def targets (q : QueuedEnvelope) (u : UserId) (devs : List DeviceRecord) : List Pair :=
  (devs.filter (eligible q)).map fun dev => (q.envelopeId, u, dev.deviceId)

/-- How far a fan-out has come after the calls `es`: nothing is owed, and `n` pairs are queued. -/
structure Progress (cfg : ServerConfig) (q : QueuedEnvelope) (es : List Ev) (n : ℕ) : Prop where
  idle : owed cfg es = none
  stored : ∃ ev ∈ es, Stores q.envelopeId ev
  listed : ∃ ev ∈ es, listsParticipants q.conversationId ev.call
  count : n = (queuedPairs cfg es).length

/-- The devices of a user are listed, each one once, and none has been tried yet. -/
structure Untried (q : QueuedEnvelope) (u : UserId) (devs : List DeviceRecord) (es : List Ev) :
    Prop where
  listed : ∀ dev ∈ devs,
    After (fun ev => listsParticipants q.conversationId ev.call) (Lists u dev.deviceId) es
  nodup : (devs.map (·.deviceId)).Nodup
  fresh : ∀ dev ∈ devs, (q.envelopeId, u, dev.deviceId) ∉ attempts es

section Devices

variable {cfg : ServerConfig} {q : QueuedEnvelope} {u : UserId} {d : DeviceId}
  {dev : DeviceRecord} {devs : List DeviceRecord} {es es' : List Ev} {n i j : ℕ} {s s' : Server}

theorem targets_cons_of_eligible (h : eligible q dev) : targets q u (dev :: devs) =
    (q.envelopeId, u, dev.deviceId) :: targets q u devs := by
  simp [targets, h]

theorem targets_cons_of_not_eligible (h : ¬ eligible q dev) :
    targets q u (dev :: devs) = targets q u devs := by
  simp [targets, h]

theorem Untried.skip (h : Untried q u (dev :: devs) es) : Untried q u devs es :=
  ⟨fun dev' hd => h.listed dev' (.tail _ hd), (List.nodup_cons.mp h.nodup).2,
    fun dev' hd => h.fresh dev' (.tail _ hd)⟩

theorem Untried.next (h : Untried q u (dev :: devs) es) (hpre : es <+: es')
    (hatt : attempts es' = attempts es ++ [(q.envelopeId, u, dev.deviceId)]) :
    Untried q u devs es' := by
  refine ⟨fun dev' hd => ?_, h.skip.nodup, fun dev' hd hm => ?_⟩
  · obtain ⟨es₂, rfl⟩ := hpre
    exact (h.skip.listed dev' hd).append es₂
  · rw [hatt, List.mem_append, List.mem_singleton] at hm
    rcases hm with hm | hm
    · exact h.skip.fresh dev' hd hm
    · exact (List.nodup_cons.mp h.nodup).1 (List.mem_map.mpr ⟨dev', hd, by simpa using hm⟩)

theorem reply_of_accepted (ha : accepted cfg ⟨i, .delivery (.enqueue u d q), s⟩ = true) :
    (Call.exec cfg (.delivery (.enqueue u d q)) s).1 = .ok () := of_decide_eq_true ha

theorem reply_of_refused (ha : accepted cfg ⟨i, .delivery (.enqueue u d q), s⟩ = false) :
    ∃ e, (Call.exec cfg (.delivery (.enqueue u d q)) s).1 = .error e := by
  have hne : (Call.exec cfg (.delivery (.enqueue u d q)) s).1 ≠ .ok () := of_decide_eq_false ha
  cases hr : (Call.exec cfg (.delivery (.enqueue u d q)) s).1 with
  | ok r => exact absurd hr hne
  | error e => exact ⟨e, rfl⟩

theorem Progress.append (h : Progress cfg q es n) (es' : List Ev) :
    (∃ ev ∈ es ++ es', Stores q.envelopeId ev) ∧
      ∃ ev ∈ es ++ es', listsParticipants q.conversationId ev.call := by
  obtain ⟨ev₁, h₁, hs⟩ := h.stored
  obtain ⟨ev₂, h₂, hl⟩ := h.listed
  exact ⟨⟨ev₁, List.mem_append_left _ h₁, hs⟩, ev₂, List.mem_append_left _ h₂, hl⟩

theorem Progress.accepted (h : Progress cfg q es n)
    (ha : Delivery.accepted cfg ⟨i, .delivery (.enqueue u d q), s⟩ = true) :
    Progress cfg q (es ++ [⟨i, .delivery (.enqueue u d q), s⟩]) (n + 1) := by
  obtain ⟨hst, hl⟩ := h.append [⟨i, .delivery (.enqueue u d q), s⟩]
  refine ⟨by rw [owed_snoc, if_pos ha], hst, hl, ?_⟩
  simp [ha, attempt?, h.count]

theorem Progress.refused (h : Progress cfg q es n) {now : Timestamp}
    (ha : Delivery.accepted cfg ⟨i, .delivery (.enqueue u d q), s⟩ = false) :
    Progress cfg q (es ++ [⟨i, .delivery (.enqueue u d q), s⟩] ++
      [⟨j, .envelopes (.addDeliveryState q.envelopeId u d now), s'⟩]) n := by
  rw [List.append_assoc]
  obtain ⟨hst, hl⟩ := h.append ([⟨i, .delivery (.enqueue u d q), s⟩] ++
    [⟨j, .envelopes (.addDeliveryState q.envelopeId u d now), s'⟩])
  rw [← List.append_assoc] at hst hl ⊢
  refine ⟨by rw [owed_snoc]; rfl, hst, hl, ?_⟩
  rw [queuedPairs_snoc, queuedPairs_snoc, if_neg (by simp [ha])]
  simp [Delivery.accepted, h.count]

theorem Progress.plain (h : Progress cfg q es n) {c : Call} (hc : Delivery.plain c) :
    Progress cfg q (es ++ [⟨i, c, s⟩]) n := by
  obtain ⟨hst, hl⟩ := h.append [⟨i, c, s⟩]
  have hn := attempt?_of_plain hc i s
  exact ⟨by simp [hn], hst, hl, by simp [hn, h.count]⟩

theorem fans_fanOutDevices (devs : List DeviceRecord) (h : Progress cfg q es n)
    (hu : Untried q u devs es) :
    Fans cfg (fun es' n' => es <+: es' ∧ Progress cfg q es' n' ∧
      attempts es' = attempts es ++ targets q u devs)
      (RelayService.fanOutDevices q u devs n) es := by
  induction devs generalizing es n with
  | nil => exact ⟨List.prefix_rfl, h, by simp [targets]⟩
  | cons dev devs ih =>
    unfold RelayService.fanOutDevices
    split
    · rename_i hrev
      rw [targets_cons_of_not_eligible (by simp [eligible, hrev])]
      exact ih h hu.skip
    split
    · rename_i hself
      rw [targets_cons_of_not_eligible (by simp [eligible, hself])]
      exact ih h hu.skip
    rename_i hrev hself
    rw [targets_cons_of_eligible (decide_eq_true ⟨hrev, hself⟩)]
    refine spec_perform_bind.mpr fun i s hs =>
      ⟨⟨h.idle, hu.fresh dev (.head _), h.stored, hu.listed dev (.head _)⟩, ?_⟩
    have hpre := List.prefix_append es [⟨i, .delivery (.enqueue u dev.deviceId q), s⟩]
    have hatt := attempts_snoc es ⟨i, .delivery (.enqueue u dev.deviceId q), s⟩
    cases ha : accepted cfg ⟨i, .delivery (.enqueue u dev.deviceId q), s⟩ with
    | true =>
      rw [reply_of_accepted ha]
      refine (ih (h.accepted ha) (hu.next hpre hatt)).mono ?_
      rintro es' n' ⟨hpre', hp, hatt'⟩
      exact ⟨hpre.trans hpre', hp, by rw [hatt', hatt, List.append_assoc]; rfl⟩
    | false =>
      -- the queue is full, so the next call persists the pair
      obtain ⟨e, he⟩ := reply_of_refused ha
      rw [he]
      refine spec_perform_bind.mpr fun j s' _ => ⟨?_, ?_⟩
      · show owed cfg (es ++ [_]) = _
        rw [owed_snoc, if_neg (by simp [ha])]
        rfl
      have hpre₂ := hpre.trans (List.prefix_append _ [⟨j, .envelopes
        (.addDeliveryState q.envelopeId u dev.deviceId q.serverTimestamp), s'⟩])
      have hatt₂ := (attempts_snoc _ ⟨j, .envelopes
        (.addDeliveryState q.envelopeId u dev.deviceId q.serverTimestamp), s'⟩).trans
        ((List.append_nil _).trans hatt)
      refine (ih (h.refused ha) (hu.next hpre₂ hatt₂)).mono ?_
      rintro es' n' ⟨hpre', hp, hatt'⟩
      exact ⟨hpre₂.trans hpre', hp, by rw [hatt', hatt₂, List.append_assoc]; rfl⟩

end Devices

/-- The devices of the user have been listed, and each one that the envelope is for was tried. -/
def Covered (q : QueuedEnvelope) (u : UserId) (es : List Ev) : Prop :=
  ∃ ev ∈ es, ev.call = .devices (.getDevicesForUser u) ∧
    ∀ dev ∈ DeviceRepository.getDevicesForUser u ev.pre.db, eligible q dev →
      (q.envelopeId, u, dev.deviceId) ∈ attempts es

section Users

variable {cfg : ServerConfig} {q : QueuedEnvelope} {u : UserId} {es es' : List Ev} {n : ℕ}

theorem Covered.mono (h : Covered q u es) (hpre : es <+: es') : Covered q u es' := by
  obtain ⟨ev, hev, hc, ht⟩ := h
  exact ⟨ev, hpre.subset hev, hc, fun dev hd he =>
    (hpre.filterMap attempt?).subset (ht dev hd he)⟩

theorem fans_fanOut (us : List UserId) (h : Progress cfg q es n) (hnd : us.Nodup)
    (hnew : ∀ p ∈ attempts es, p.2.1 ∉ us) :
    Fans cfg (fun es' n' => es <+: es' ∧ Progress cfg q es' n' ∧
      (∀ p ∈ attempts es', p ∈ attempts es ∨ p.1 = q.envelopeId) ∧ ∀ u ∈ us, Covered q u es')
      (RelayService.fanOut q us n) es := by
  induction us generalizing es n with
  | nil => exact ⟨List.prefix_rfl, h, fun p hp => .inl hp, by simp⟩
  | cons u us ih =>
    obtain ⟨hu, hnd⟩ := List.nodup_cons.mp hnd
    refine spec_perform_bind.mpr fun i s hs => ⟨fanStep_of_plain rfl h.idle i s, ?_⟩
    have hatt : attempts (es ++ [⟨i, .devices (.getDevicesForUser u), s⟩]) = attempts es :=
      (attempts_snoc es _).trans (List.append_nil _)
    have hpre := List.prefix_append es [⟨i, .devices (.getDevicesForUser u), s⟩]
    have huntried : Untried q u (DeviceRepository.getDevicesForUser u s.db)
        (es ++ [⟨i, .devices (.getDevicesForUser u), s⟩]) := by
      refine ⟨fun dev hd => ?_, DeviceRepository.nodup_getDevicesForUser hs u, fun dev _ hm => ?_⟩
      · exact ⟨es, _, [], rfl, h.listed, rfl, dev, hd, rfl⟩
      · rw [hatt] at hm
        exact hnew _ hm (.head _)
    refine (fans_fanOutDevices _ (h.plain rfl) huntried).bind ?_
    rintro es₁ n₁ ⟨hpre₁, hp₁, hatt₁⟩
    rw [hatt] at hatt₁
    have hmem : ∀ p ∈ attempts es₁, p ∈ attempts es ∨ p.1 = q.envelopeId ∧ p.2.1 = u := by
      intro p hp
      rw [hatt₁, List.mem_append] at hp
      refine hp.imp_right fun hp => ?_
      obtain ⟨dev, -, rfl⟩ := List.mem_map.mp hp
      exact ⟨rfl, rfl⟩
    have hcov : Covered q u es₁ := by
      refine ⟨_, hpre₁.subset (List.mem_append_right _ (.head _)), rfl, fun dev hd he => ?_⟩
      rw [hatt₁]
      exact List.mem_append_right _
        (List.mem_map.mpr ⟨dev, List.mem_filter.mpr ⟨hd, he⟩, rfl⟩)
    have hnew₁ : ∀ p ∈ attempts es₁, p.2.1 ∉ us := by
      intro p hp hus
      rcases hmem p hp with hp | ⟨-, rfl⟩
      · exact hnew p hp (.tail _ hus)
      · exact hu hus
    refine (ih hp₁ hnd hnew₁).mono ?_
    rintro es₂ n₂ ⟨hpre₂, hp₂, hmem₂, hcov₂⟩
    refine ⟨hpre.trans (hpre₁.trans hpre₂), hp₂, fun p hp => ?_, ?_⟩
    · rcases hmem₂ p hp with hp | he
      · exact (hmem p hp).imp_right And.left
      · exact .inr he
    · exact List.forall_mem_cons.mpr ⟨hcov.mono hpre₂, hcov₂⟩

end Users

def Found (c : ConversationId) (conv : ConversationRecord) (es : List Ev) : Prop :=
  ∃ ev ∈ es, ConversationRepository.findById c ev.pre.db = some conv

/-- The users that a conversation delivers to: subscribers of a channel, members otherwise. -/
def participants (conv : ConversationRecord) (c : ConversationId) (db : Database) : List UserId :=
  if conv.type = .channel then ConversationRepository.getSubscribers c db
  else (ConversationRepository.getMembers c db).map (·.userId)

theorem mem_participants {conv : ConversationRecord} {c : ConversationId} {u : UserId}
    {db : Database} (hc : ConversationRepository.findById c db = some conv)
    (h : ConversationRepository.isUserInConversation c u db) : u ∈ participants conv c db := by
  unfold ConversationRepository.isUserInConversation at h
  rw [hc] at h
  dsimp only at h
  unfold participants
  split at h
  · rename_i htype
    rw [if_pos htype]
    simp only [List.any_eq_true, decide_eq_true_eq] at h
    obtain ⟨r, hr, hk, hn⟩ := h
    obtain ⟨rfl, rfl⟩ := Prod.mk.inj hk
    exact ConversationRepository.mem_getSubscribers.mpr ⟨r, hr, ⟨rfl, hn⟩, rfl⟩
  · rename_i htype
    rw [if_neg htype]
    simp only [List.any_eq_true, decide_eq_true_eq] at h
    obtain ⟨r, hr, hk, hn⟩ := h
    obtain ⟨rfl, rfl⟩ := Prod.mk.inj hk
    exact List.mem_map.mpr ⟨r, ConversationRepository.mem_getMembers.mpr ⟨hr, rfl, hn⟩, rfl⟩

/-- What the calls of a successful send have done. -/
structure Sent (cfg : ServerConfig) (request : SendMessageRequest) (r : SendMessageResponse)
    (es : List Ev) : Prop where
  idle : owed cfg es = none
  count : r.deliveredToCount = (queuedPairs cfg es).length
  ids : ∀ p ∈ attempts es, p.1 = r.envelopeId
  covered : ∃ now conv, Found request.conversationId conv es ∧
    ∃ ev ∈ es, listsParticipants request.conversationId ev.call ∧
      ∀ u ∈ participants conv request.conversationId ev.pre.db,
        Covered (RelayService.newQueued request r.envelopeId now) u es

section Send

variable {cfg : ServerConfig} {es : List Ev}

theorem fans_authorize (request : SendMessageRequest) (h : attempts es = []) :
    Fans cfg (fun es' r => attempts es' = [] ∧
      ∀ conv, r = .ok conv → Found request.conversationId conv es')
      (RelayService.authorize request) es := by
  unfold RelayService.authorize
  split
  · exact ⟨h, by simp⟩
  refine fans_ask_bind rfl h fun i s _ h => ?_
  split
  swap
  · exact ⟨h, by simp⟩
  refine fans_ask_bind rfl h fun j sc _ h => ?_
  split
  swap
  · exact ⟨h, by simp⟩
  rename_i conv hconv
  have hfound : ∀ es' : List Ev, ⟨j, .conversations (.findById request.conversationId), sc⟩ ∈ es' →
      ∀ conv', (.ok conv : Result _) = .ok conv' → Found request.conversationId conv' es' := by
    rintro es' hm _ ⟨⟩
    exact ⟨_, hm, hconv⟩
  refine fans_ask_bind rfl h fun i s _ h => ?_
  split
  · exact ⟨h, by simp⟩
  split
  swap
  · exact ⟨h, hfound _ (by simp)⟩
  refine fans_ask_bind rfl h fun i s _ h => ?_
  split
  · exact ⟨h, by simp⟩
  split
  · exact ⟨h, hfound _ (by simp)⟩
  refine fans_ask_bind rfl h fun i s _ h => ?_
  split
  · exact ⟨h, by simp⟩
  split
  · exact ⟨h, by simp⟩
  · exact ⟨h, hfound _ (by simp)⟩

theorem nodup_participants {db : Database} (h : db.Valid) (conv : ConversationRecord)
    (c : ConversationId) : (participants conv c db).Nodup := by
  unfold participants
  split
  · exact ConversationRepository.nodup_getSubscribers h c
  · exact ConversationRepository.nodup_getMembers h c

theorem fans_targetUsers (conv : ConversationRecord) (c : ConversationId) (h : attempts es = []) :
    Fans cfg (fun es' us => ∃ i call s, es' = es ++ [⟨i, call, s⟩] ∧ attempts es' = [] ∧
      Sound s ∧ listsParticipants c call ∧ us = participants conv c s.db)
      (RelayService.targetUsers conv c) es := by
  unfold RelayService.targetUsers
  split
  · rename_i hc
    rw [← bind_ret (ask _)]
    refine fans_ask_bind rfl h fun i s hs h => ?_
    exact ⟨i, _, s, rfl, h, hs, by simp [listsParticipants], (if_pos hc).symm⟩
  · rename_i hc
    refine fans_ask_bind rfl h fun i s hs h => ?_
    exact ⟨i, _, s, rfl, h, hs, by simp [listsParticipants], (if_neg hc).symm⟩

theorem fans_sendEnvelope (request : SendMessageRequest) (uuid : String) :
    Fans cfg (fun es r => ∀ response, r = .ok response → Sent cfg request response es)
      (RelayService.sendEnvelope cfg request uuid) [] := by
  refine (fans_authorize request rfl).bind ?_
  rintro es r ⟨h, hfound⟩
  split
  · exact fun _ hr => by cases hr
  rename_i conv
  obtain ⟨evc, hevc, hconv⟩ := hfound conv rfl
  dsimp only
  generalize (if request.envelopeId = "" then uuid else request.envelopeId) = e
  refine fans_ask_bind rfl h fun i s _ h => ?_
  split
  · exact fun _ hr => by cases hr
  refine fans_ask_bind rfl h fun i s _ h => ?_
  generalize (Call.exec cfg .now s).1 = now
  refine spec_perform_bind.mpr fun i s _ => ⟨owed_of_attempts_eq_nil h, ?_⟩
  split
  · exact fun _ hr => by cases hr
  rename_i hok
  have hst : Stores e
      ⟨i, .envelopes (.storeEnvelope (RelayService.newEnvelope cfg request e now)), s⟩ :=
    ⟨_, rfl, rfl, hok⟩
  refine (fans_targetUsers conv _ (by rw [attempts_snoc, h]; rfl)).bind ?_
  rintro es' us ⟨j, call, s', rfl, h', hs', hl, rfl⟩
  refine (fans_fanOut _ ⟨owed_of_attempts_eq_nil h', ⟨_, by simp, hst⟩,
      ⟨⟨j, call, s'⟩, by simp, hl⟩, ?_⟩
    (nodup_participants hs' conv _) (fun p hp => by rw [h'] at hp; cases hp)).bind ?_
  · rw [queuedPairs_of_attempts_eq_nil h']; rfl
  rintro es'' n ⟨hpre, hp, hmem, hcov⟩ _ ⟨⟩
  refine ⟨hp.idle, hp.count, fun p hp => ?_, now, conv, ?_, ⟨j, call, s'⟩, ?_, hl, hcov⟩
  · rcases hmem p hp with hp | hp
    · rw [h'] at hp
      cases hp
    · exact hp
  · exact ⟨evc, hpre.subset (by simp [hevc]), hconv⟩
  · exact hpre.subset (by simp)

end Send

section Operations

variable {cfg : ServerConfig} {es : List Ev}

theorem fans_purgeQueues (c : ConversationId) (devs : List DeviceRecord) (h : attempts es = [])
    (hlist : ∀ dev ∈ devs, ∃ ev ∈ es, Lists dev.userId dev.deviceId ev) :
    Fans cfg (fun _ _ => True) (ConversationService.purgeQueues c devs) es := by
  induction devs generalizing es with
  | nil => trivial
  | cons dev devs ih =>
    obtain ⟨hl, hlist⟩ := List.forall_mem_cons.mp hlist
    refine spec_perform_bind.mpr fun i s _ => ⟨⟨owed_of_attempts_eq_nil h, hl⟩, ?_⟩
    refine ih (by rw [attempts_snoc, h]; rfl) fun dev' hd => ?_
    obtain ⟨ev, hev, hl⟩ := hlist dev' hd
    exact ⟨ev, List.mem_append_left _ hev, hl⟩

theorem fans_purgeMemberDelivery (c : ConversationId) (u : UserId) (h : attempts es = []) :
    Fans cfg (fun _ _ => True) (ConversationService.purgeMemberDelivery c u) es := by
  refine fans_ask_bind rfl h fun i s _ h => ?_
  refine fans_ask_bind rfl h fun i s _ h => ?_
  refine fans_purgeQueues c _ h fun dev hd => ?_
  obtain rfl := (DeviceRepository.mem_getDevicesForUser.mp hd).2
  exact ⟨_, List.mem_append_right _ (.head _), rfl, dev, hd, rfl⟩

theorem fans_removeMember (c : ConversationId) (a u : UserId) :
    Fans cfg (fun _ _ => True) (ConversationService.removeMember c a u) [] := by
  refine fans_ask_bind rfl rfl fun i s _ h => ?_
  split
  swap
  · trivial
  split
  · trivial
  split
  · trivial
  refine (fans_of_routine (calm_actorCanManageMembers _ a).tame.routine h).bind fun es r h => ?_
  split
  · trivial
  refine fans_ask_bind rfl h fun i s _ h => ?_
  refine fans_ask_bind rfl h fun i s _ h => ?_
  split
  · trivial
  exact (fans_purgeMemberDelivery c u h).bind fun _ _ _ => trivial

theorem fans_unsubscribeChannel (c : ConversationId) (u : UserId) :
    Fans cfg (fun _ _ => True) (ConversationService.unsubscribeChannel c u) [] := by
  refine fans_ask_bind rfl rfl fun i s _ h => ?_
  split
  swap
  · trivial
  split
  · trivial
  refine fans_ask_bind rfl h fun i s _ h => ?_
  split
  · trivial
  refine fans_ask_bind rfl h fun i s _ h => ?_
  refine fans_ask_bind rfl h fun i s _ h => ?_
  split
  · trivial
  exact (fans_purgeMemberDelivery c u h).bind fun _ _ _ => trivial

theorem plain_of_mayCall {o : Op} {c : Call} (ho : ∀ c, o ≠ .single c)
    (hs : ∀ r i, o ≠ .sendEnvelope r i) (hr : ∀ c a u, o ≠ .removeMember c a u)
    (hu : ∀ c u, o ≠ .unsubscribeChannel c u) (hc : o.mayCall c) : plain c := by
  unfold Op.mayCall at hc
  split at hc
  case h_1 => exact absurd rfl (ho _)
  case h_7 | h_8 | h_9 => exact absurd rfl (hs _ _)
  case h_12 | h_13 => exact absurd rfl (hr _ _ _)
  case h_15 | h_16 => exact absurd rfl (hu _ _)
  case h_20 => exact plain_of_routine c (Call.routine_of_tame hc)
  all_goals rfl

/-- Every operation keeps to the order of a fan-out, single calls apart that are part of one. -/
theorem fans_code (o : Op) (ho : ∀ c, o = .single c → plain c) :
    Fans cfg (fun _ _ => True) (o.code cfg) [] := by
  have hplain : (∀ c, o.mayCall c → plain c) → Fans cfg (fun _ _ => True) (o.code cfg) [] :=
    fun hp => (fans_of_plain ((o.code_only cfg).mono hp) rfl).mono fun _ _ _ => trivial
  cases o with
  | single c => exact fun i s _ => ⟨fanStep_of_plain (ho c rfl) rfl i s, trivial⟩
  | sendEnvelope r i => exact (fans_sendEnvelope r i).mono fun _ _ _ => trivial
  | removeMember c a u => exact fans_removeMember c a u
  | unsubscribeChannel c u => exact fans_unsubscribeChannel c u
  | _ => exact hplain fun c hc => plain_of_mayCall (by simp) (by simp) (by simp) (by simp) hc

theorem fanStep_run {init : Server} {acts : List Act} (hv : init.db.Valid)
    (hops : ∀ c, .spawn (.single c) ∈ acts → plain c) (i : ℕ) :
    Always (FanStep cfg) (localTrace i (serve cfg init acts).trace) := by
  refine (voxServer cfg).always_spec (J := fun s => s.db.Valid) (serve_valid cfg hv acts).2 ?_ i
  intro o ho
  refine fans_code o ?_
  rintro c rfl
  exact hops c ho

theorem sent_of_finished {init : Server} {acts : List Act} (hv : init.db.Valid) {i : ℕ}
    {request : SendMessageRequest} {uuid : String} {response : SendMessageResponse}
    (hi : (serve cfg init acts).threads[i]? =
      some ⟨.sendEnvelope request uuid, .ret (.ok response)⟩) :
    Sent cfg request response (localTrace i (serve cfg init acts).trace) :=
  ((voxServer cfg).spec_run (serve_valid cfg hv acts).2 hi (fans_sendEnvelope request uuid)).2
    response rfl

end Operations

end VoxServer.Delivery
