import VoxServer.Delivery.Conservation

/-! # What offline devices get

The server as it is wired never drains a queue and never marks a delivery: a device
gets an envelope by a push to the connection that is registered when it is sent, or
later from the listing of its delivery states. So an envelope that is queued while no
connection is registered is in neither; and a purge that comes after the user has
joined again takes what was sent since. In runs without these two steps nothing is
lost.
-/

namespace VoxServer.Delivery

open Interleaving Table

/-- The calls that the wired server never makes. -/
def unwired : Call → Bool
  | .envelopes (.markDelivered ..) => true
  | .delivery (.dequeue ..) => true
  | .delivery (.switchToOffline ..) => true
  | _ => false

/-- A send queues only for a device with a connection, unless the queue is full; and deliveries
are purged only for users that are not in the conversation. -/
def Safe (cfg : ServerConfig) (ev : Ev) : Prop :=
  match ev.call with
  | .delivery (.enqueue u d _) =>
    (ev.pre.queues (deviceScopeKey u d)).length ≥ cfg.maxQueueDepthPerDevice ∨
      (ev.pre.senders (deviceScopeKey u d)).isSome
  | .envelopes (.deletePendingDeliveryForUserInConversation c u) =>
    ¬ ConversationRepository.isUserInConversation c u ev.pre.db
  | _ => True

instance (cfg : ServerConfig) (ev : Ev) : Decidable (Safe cfg ev) := by
  unfold Safe
  split <;> infer_instance

def Sends (i : ℕ) (e : EnvelopeId) (ev : Ev) : Prop := ev.tid = i ∧ Stores e ev

def Reads (i : ℕ) (c : ConversationId) (ev : Ev) : Prop := ev.tid = i ∧ listsParticipants c ev.call

instance (i : ℕ) (c : ConversationId) (ev : Ev) : Decidable (Reads i c ev) :=
  inferInstanceAs (Decidable (_ ∧ _))

/-- The device is one of a participant, and not revoked, when the send reads them. -/
structure Recipient (i : ℕ) (c : ConversationId) (u : UserId) (d : DeviceId) (tr : List Ev) :
    Prop where
  participant : ∀ ev ∈ tr, Reads i c ev →
    ConversationRepository.isUserInConversation c u ev.pre.db
  active : ∀ ev ∈ tr, ev.tid = i → ev.call = .devices (.getDevicesForUser u) →
    ev.pre.db.ActiveDevice (u, d)

/-- The call pushes the envelope to the connection that is registered for the device. -/
def Pushes (cfg : ServerConfig) (p : Pair) (ev : Ev) : Prop :=
  ∃ q n, ev.call = .delivery (.enqueue p.2.1 p.2.2 q) ∧ q.envelopeId = p.1 ∧
    ev.pre.senders (queueKey p) = some n ∧
    (ev.call.exec cfg ev.pre).2.pushed = ev.pre.pushed ++ [⟨queueKey p, n, .envelope q⟩]

def Acks (p : Pair) (ev : Ev) : Prop :=
  ∃ now, ev.call = .envelopes (.markAcked p.1 p.2.1 p.2.2 now) ∧
    (EnvelopeRepository.markAcked p.1 p.2.1 p.2.2 now ev.pre.db).1 = .ok ()

/-- The envelope is there before the call and not after it. -/
def Deletes (cfg : ServerConfig) (e : EnvelopeId) (ev : Ev) : Prop :=
  (∃ r ∈ ev.pre.db.encryptedEnvelopes, r.envelopeId = e) ∧
    ¬ ∃ r ∈ (ev.call.exec cfg ev.pre).2.db.encryptedEnvelopes, r.envelopeId = e

def Leaves (cfg : ServerConfig) (c : ConversationId) (u : UserId) (ev : Ev) : Prop :=
  ConversationRepository.isUserInConversation c u ev.pre.db ∧
    ¬ ConversationRepository.isUserInConversation c u (ev.call.exec cfg ev.pre).2.db

instance (cfg : ServerConfig) (e : EnvelopeId) (ev : Ev) : Decidable (Deletes cfg e ev) :=
  inferInstanceAs (Decidable (_ ∧ _))

instance (cfg : ServerConfig) (c : ConversationId) (u : UserId) (ev : Ev) :
    Decidable (Leaves cfg c u ev) :=
  inferInstanceAs (Decidable (_ ∧ _))

/-- The pair is not lost: it was pushed when it was sent, is pending, or was acknowledged, or the
envelope was deleted, or the user has left, since it was sent. -/
def NotLost (cfg : ServerConfig) (i : ℕ) (c : ConversationId) (p : Pair) (tr : List Ev)
    (s : Server) : Prop :=
  (∃ ev ∈ tr, ev.tid = i ∧ Pushes cfg p ev) ∨
  (∃ r ∈ EnvelopeRepository.pendingRows p.2.1 p.2.2 s.db, r.envelopeId = p.1) ∨
  After (Sends i p.1) (Acks p) tr ∨
  After (Sends i p.1) (Deletes cfg p.1) tr ∨
  After (Reads i c) (Leaves cfg c p.2.1) tr

section Rows

variable {cfg : ServerConfig} {c : Call} {s : Server} {r : DeliveryStateRecord}

theorem row_of_exec (hw : ¬ unwired c) (h : r ∈ (c.exec cfg s).2.db.deliveryState) :
    r ∈ s.db.deliveryState ∨ (r.deliveredAt = none ∧ r.ackedAt = none) ∨
      ∃ now, c = .envelopes (.markAcked r.envelopeId r.targetUserId r.targetDeviceId now) ∧
        ∃ r₀ ∈ s.db.deliveryState, r₀.key = r.key := by
  cases c with
  | envelopes a =>
    rcases (a.exec_effect s.db).row_mem h with h | h | ⟨e, u, d, now, rfl⟩ | ⟨now, rfl, hr⟩
    · exact .inl h
    · exact .inr (.inl h)
    · exact absurd rfl hw
    · exact .inr (.inr ⟨now, rfl, hr⟩)
  | delivery a =>
    left
    rcases a.exec_db cfg.maxQueueDepthPerDevice s with he | ⟨u, d, qs, rfl, -⟩
    · exact he ▸ h
    · exact absurd rfl hw
  | _ => exact .inl ((Call.exec_deliveryState_sublist cfg (by simp) (by simp)).subset h)

theorem row_kept_exec (hv : s.db.Valid) (h : r ∈ s.db.deliveryState) :
    (∃ r' ∈ (c.exec cfg s).2.db.deliveryState, r'.key = r.key) ∨
      (∃ conv, c = .envelopes (.deletePendingDeliveryForUserInConversation conv r.targetUserId) ∧
        r.envelopeId ∈ EnvelopeRepository.idsIn conv s.db) ∨
      (∀ e ∈ (c.exec cfg s).2.db.encryptedEnvelopes, e.envelopeId ≠ r.envelopeId) ∨
      (c.exec cfg s).2.db = AdminService.withoutUser r.targetUserId s.db := by
  cases c with
  | envelopes a =>
    rcases (a.exec_effect s.db).row_kept hv h with h | ⟨conv, rfl, hid⟩ | h
    · exact .inl h
    · exact .inr (.inl ⟨conv, rfl, hid⟩)
    · exact .inr (.inr (.inl h))
  | delivery a =>
    left
    rcases a.exec_db cfg.maxQueueDepthPerDevice s with he | ⟨u, d, qs, -, he⟩
    · exact ⟨r, (congrArg Database.deliveryState he).symm ▸ h, rfl⟩
    · obtain ⟨ds, hf⟩ := @DeliveryManager.persistPending_frame u d s.clock qs s.db
      refine ⟨r, ?_, rfl⟩
      show r ∈ (a.exec cfg.maxQueueDepthPerDevice s).2.db.deliveryState
      rw [he, hf]
      exact List.mem_append_left _ h
  | admin a =>
    cases a with | deleteUserRows v =>
    have hf : _ ∨ _ := Call.exec_frame cfg (.admin (.deleteUserRows v)) s
    rcases hf with hf | hf
    · rw [hf]
      exact .inl ⟨r, h, rfl⟩
    · rw [hf]
      rcases AdminService.row_withoutUser (u := v) hv h with h | hu | h
      · exact .inl ⟨r, h, rfl⟩
      · exact .inr (.inr (.inr (hu ▸ rfl)))
      · exact .inr (.inr (.inl h))
  | _ =>
    left
    exact ⟨r, by rwa [Call.exec_deliveryState cfg (by simp) (by simp) (by simp [Call.isAdmin])],
      rfl⟩

end Rows

/-- A call in a run in which the pair has to be kept: the wired server makes it safely, and it
neither acknowledges the pair nor ends what the pair is for. -/
structure Calm (cfg : ServerConfig) (i : ℕ) (c : ConversationId) (p : Pair) (tr : List Ev)
    (ev : Ev) : Prop where
  wired : ¬ unwired ev.call
  safe : Safe cfg ev
  unacked : (∃ ev' ∈ tr, Sends i p.1 ev') → ¬ Acks p ev
  kept : (∃ ev' ∈ tr, Sends i p.1 ev') → ¬ Deletes cfg p.1 ev
  stays : (∃ ev' ∈ tr, Reads i c ev') → ¬ Leaves cfg c p.2.1 ev
  participant : Reads i c ev → ConversationRepository.isUserInConversation c p.2.1 ev.pre.db
  conversation : ∀ e, ev.tid = i → ev.call = .envelopes (.storeEnvelope e) → e.conversationId = c
  persists : ev.tid = i → persist? ev = some p →
    (∃ ev' ∈ tr, Sends i p.1 ev') ∧ After (Reads i c) (Lists p.2.1 p.2.2) tr

/-- What calm calls keep: once the envelope is stored, the participants read, the device listed
and the pair persisted, all of that stays in the database. -/
structure Held (i : ℕ) (c : ConversationId) (p : Pair) (tr : List Ev) (db : Database) : Prop where
  valid : db.Valid
  envelope : (∃ ev ∈ tr, Sends i p.1 ev) →
    ∃ r ∈ db.encryptedEnvelopes, r.envelopeId = p.1 ∧ r.conversationId = c
  unmarked : (∃ ev ∈ tr, Sends i p.1 ev) →
    ∀ r ∈ db.deliveryState, r.key = p → r.deliveredAt = none ∧ r.ackedAt = none
  participant : (∃ ev ∈ tr, Reads i c ev) →
    ConversationRepository.isUserInConversation c p.2.1 db
  device : After (Reads i c) (Lists p.2.1 p.2.2) tr → ∃ r ∈ db.devices, r.key = p.2
  row : (∃ ev ∈ tr, ev.tid = i ∧ persist? ev = some p) →
    (∃ ev ∈ tr, Sends i p.1 ev) ∧ (∃ ev ∈ tr, Reads i c ev) ∧
      ∃ r ∈ db.deliveryState, r.key = p

section Step

variable {cfg : ServerConfig} {i : ℕ} {c : ConversationId} {p : Pair} {tr : List Ev} {ev : Ev}

theorem exists_mem_snoc {q : Ev → Prop} :
    (∃ ev' ∈ tr ++ [ev], q ev') ↔ (∃ ev' ∈ tr, q ev') ∨ q ev := by
  simp [or_and_right, exists_or]

theorem Held.envelope_call (h : Held i c p tr ev.pre.db) (hc : Calm cfg i c p tr ev)
    (hs : ∃ ev' ∈ tr ++ [ev], Sends i p.1 ev') :
    ∃ r ∈ (ev.call.exec cfg ev.pre).2.db.encryptedEnvelopes,
      r.envelopeId = p.1 ∧ r.conversationId = c := by
  rcases exists_mem_snoc.mp hs with hs | ⟨htid, hst⟩
  · obtain ⟨r, hr, hid, hconv⟩ := h.envelope hs
    obtain ⟨r', hr', hid'⟩ := not_and_not_right.mp (hc.kept hs) ⟨r, hr, hid⟩
    refine ⟨r', hr', hid', ?_⟩
    rcases Call.envelope_of_exec cfg hr' with hold | ⟨-, hnew⟩
    · rwa [h.valid.envelopes_pk.eq_of_mem hold hr (hid'.trans hid.symm)]
    · exact absurd (hid.trans hid'.symm) (hnew r hr)
  · obtain ⟨r, hr, hid, hcall⟩ := (stored_of_stores cfg hst).2
    exact ⟨r, hr, hid, hc.conversation r htid hcall⟩

theorem Held.participant_call (h : Held i c p tr ev.pre.db) (hc : Calm cfg i c p tr ev)
    (hr : ∃ ev' ∈ tr ++ [ev], Reads i c ev') :
    ConversationRepository.isUserInConversation c p.2.1 (ev.call.exec cfg ev.pre).2.db := by
  rcases exists_mem_snoc.mp hr with hr | hr
  · exact not_and_not_right.mp (hc.stays hr) (h.participant hr)
  · -- listing the participants changes nothing
    have hpre := hc.participant hr
    obtain ⟨j, call, s⟩ := ev
    rcases of_decide_eq_true hr.2 with rfl | rfl
    · exact hpre
    · exact hpre

theorem device_call (hr : ∃ ev' ∈ tr, Reads i c ev') (h : Held i c p tr ev.pre.db)
    (hc : Calm cfg i c p tr ev) (hd : ∃ r ∈ ev.pre.db.devices, r.key = p.2) :
    ∃ r ∈ (ev.call.exec cfg ev.pre).2.db.devices, r.key = p.2 := by
  by_cases ha : ev.call.isAdmin
  · have hin := not_and_not_right.mp (hc.stays hr) (h.participant hr)
    obtain ⟨j, call, s⟩ := ev
    cases call with
    | admin a =>
      cases a with | deleteUserRows v =>
      have hf : _ ∨ _ := Call.exec_frame cfg (.admin (.deleteUserRows v)) s
      dsimp only at hin hd ⊢
      rcases hf with hf | hf
      · rwa [hf]
      · rw [hf] at hin ⊢
        obtain ⟨r, hr, hk⟩ := hd
        refine ⟨r, mem_deleteWhere.mpr ⟨hr, fun hv => ?_⟩, hk⟩
        obtain rfl : r.userId = v := of_decide_eq_true hv
        have hu : r.userId = p.2.1 := congrArg Prod.fst hk
        rw [← hu] at hin
        exact AdminService.not_isUserInConversation_withoutUser c _ _ hin
    | _ => cases ha
  · exact Call.exec_keeps_device cfg ha hd

theorem Held.device_call (h : Held i c p tr ev.pre.db) (hc : Calm cfg i c p tr ev)
    (hl : After (Reads i c) (Lists p.2.1 p.2.2) (tr ++ [ev])) :
    ∃ r ∈ (ev.call.exec cfg ev.pre).2.db.devices, r.key = p.2 := by
  rcases after_snoc.mp hl with hl | ⟨hr, hl⟩
  · exact Delivery.device_call hl.exists_mem.1 h hc (h.device hl)
  · refine Delivery.device_call hr h hc ?_
    obtain ⟨-, dev, hd, hid⟩ := hl
    obtain ⟨hd', hu⟩ := DeviceRepository.mem_getDevicesForUser.mp hd
    exact ⟨dev, hd', Prod.ext hu hid⟩

theorem Held.unmarked_call (h : Held i c p tr ev.pre.db) (hc : Calm cfg i c p tr ev)
    (hs : ∃ ev' ∈ tr ++ [ev], Sends i p.1 ev') :
    ∀ r ∈ (ev.call.exec cfg ev.pre).2.db.deliveryState, r.key = p →
      r.deliveredAt = none ∧ r.ackedAt = none := by
  rintro r hr rfl
  rcases exists_mem_snoc.mp hs with hs | ⟨-, hst⟩
  · rcases row_of_exec hc.wired hr with hold | hnew | ⟨now, hcall, r₀, hr₀, hk⟩
    · exact h.unmarked hs r hold rfl
    · exact hnew
    · exact absurd ⟨now, hcall, EnvelopeRepository.markAcked_ok hr₀ hk⟩ (hc.unacked hs)
  · -- the envelope was not there before, so nothing is persisted for it
    obtain ⟨hnew, r', -, -, hcall⟩ := stored_of_stores cfg hst
    obtain ⟨j, call, s⟩ := ev
    obtain rfl : call = _ := hcall
    replace hr : r ∈ s.db.deliveryState :=
      EnvelopeRepository.storeEnvelope_deliveryState r' s.db ▸ hr
    obtain ⟨e, he, hid⟩ := h.valid.delivery_envelope r hr
    exact absurd hid (hnew e he)

theorem Held.row_kept (h : Held i c p tr ev.pre.db) (hc : Calm cfg i c p tr ev)
    (hs : ∃ ev' ∈ tr, Sends i p.1 ev') (hr : ∃ ev' ∈ tr, Reads i c ev')
    (hrow : ∃ r ∈ ev.pre.db.deliveryState, r.key = p) :
    ∃ r ∈ (ev.call.exec cfg ev.pre).2.db.deliveryState, r.key = p := by
  obtain ⟨r, hmem, rfl⟩ := hrow
  obtain ⟨e, he, hid, hconv⟩ := h.envelope hs
  rcases row_kept_exec h.valid hmem with hk | ⟨conv, hcall, hids⟩ | hgone | huser
  · exact hk
  · -- a purge of this conversation comes only after the user has left
    obtain ⟨e', he', hconv', hid'⟩ := EnvelopeRepository.mem_idsIn.mp hids
    obtain rfl := h.valid.envelopes_pk.eq_of_mem he he' (hid.trans hid'.symm)
    have hsafe := hc.safe
    obtain ⟨j, call, s⟩ := ev
    obtain rfl : call = _ := hcall
    have hpart := h.participant hr
    rw [← hconv, hconv'] at hpart
    exact absurd hpart hsafe
  · refine absurd ⟨⟨e, he, hid⟩, ?_⟩ (hc.kept hs)
    rintro ⟨e', he', hid'⟩
    exact hgone e' he' hid'
  · refine absurd ⟨h.participant hr, ?_⟩ (hc.stays hr)
    rw [huser]
    exact AdminService.not_isUserInConversation_withoutUser c _ _

theorem Held.row_call (h : Held i c p tr ev.pre.db) (hc : Calm cfg i c p tr ev)
    (hp : ∃ ev' ∈ tr ++ [ev], ev'.tid = i ∧ persist? ev' = some p) :
    (∃ ev' ∈ tr ++ [ev], Sends i p.1 ev') ∧ (∃ ev' ∈ tr ++ [ev], Reads i c ev') ∧
      ∃ r ∈ (ev.call.exec cfg ev.pre).2.db.deliveryState, r.key = p := by
  rcases exists_mem_snoc.mp hp with hp' | ⟨htid, hp'⟩
  · obtain ⟨hs, hr, hrow⟩ := h.row hp'
    exact ⟨exists_mem_snoc.mpr (.inl hs), exists_mem_snoc.mpr (.inl hr), h.row_kept hc hs hr hrow⟩
  · obtain ⟨hs, hl⟩ := hc.persists htid hp'
    have hr := hl.exists_mem.1
    refine ⟨exists_mem_snoc.mpr (.inl hs), exists_mem_snoc.mpr (.inl hr), ?_⟩
    by_cases hrow : ∃ r ∈ ev.pre.db.deliveryState, r.key = p
    · exact h.row_kept hc hs hr hrow
    · -- envelope and device are there, so the row is inserted
      obtain ⟨e, he, hid, -⟩ := h.envelope hs
      have hd := h.device hl
      obtain ⟨j, call, s⟩ := ev
      unfold persist? at hp'
      split at hp'
      · rename_i e' u d now hcall
        obtain rfl : call = _ := hcall
        obtain rfl := Option.some.inj hp'
        have hk : ∀ r ∈ s.db.deliveryState, r.key ≠ (e', u, d) :=
          fun r hr hk => hrow ⟨r, hr, hk⟩
        refine ⟨⟨e', u, d, now, none, none⟩, ?_, rfl⟩
        show _ ∈ (EnvelopeRepository.addDeliveryState e' u d now s.db).2.deliveryState
        rw [EnvelopeRepository.addDeliveryState_snd hk ⟨e, he, hid⟩ hd]
        exact List.mem_append_right _ (.head _)
      · cases hp'

theorem Held.call (h : Held i c p tr ev.pre.db) (hc : Calm cfg i c p tr ev) :
    Held i c p (tr ++ [ev]) (ev.call.exec cfg ev.pre).2.db where
  valid := ev.call.exec_valid cfg h.valid
  envelope := h.envelope_call hc
  unmarked := h.unmarked_call hc
  participant := h.participant_call hc
  device := h.device_call hc
  row := h.row_call hc

end Step

section Run

variable {cfg : ServerConfig} {init : Server} {acts : List Act}

theorem not_unwired_of_routine {c : Call} (h : c.routine) : ¬ unwired c := by
  unfold unwired
  split
  case h_4 => simp
  all_goals cases h

theorem not_unwired_of_mayCall {o : Op} {c : Call} (ho : ∀ c, o = .single c → c.routine)
    (hc : o.mayCall c) : ¬ unwired c := by
  unfold Op.mayCall at hc
  split at hc
  case h_1 c' =>
    obtain rfl : c = c' := of_decide_eq_true hc
    exact not_unwired_of_routine (ho c rfl)
  case h_20 => exact not_unwired_of_routine (Call.routine_of_tame hc)
  all_goals simp [unwired]

section Valid

variable (hv : init.db.Valid)
include hv

theorem type_eq_of_found {ev ev' : Ev} {c : ConversationId} {r r' : ConversationRecord}
    (hev : ev ∈ (serve cfg init acts).trace) (hev' : ev' ∈ (serve cfg init acts).trace)
    (h : ConversationRepository.findById c ev.pre.db = some r)
    (h' : ConversationRepository.findById c ev'.pre.db = some r') : r.type = r'.type := by
  obtain ⟨hmem, hid⟩ := ConversationRepository.findById_eq_some h
  obtain ⟨hmem', hid'⟩ := ConversationRepository.findById_eq_some h'
  by_cases he : ev = ev'
  · subst he
    rw [Option.some.inj (h.symm.trans h')]
  rcases (serve_keeps_type cfg init acts).of_ne hev hev' he with ⟨m, hm, hk⟩ | ⟨m, hm, hk⟩
  · obtain ⟨r₂, hr₂, hid₂, htype⟩ := hk ev hm r hmem
    have hpk := ((serve_valid cfg hv acts).2 ev' hev').conversations_pk
    rw [← htype, hpk.eq_of_mem hr₂ hmem' (hid₂.trans (hid.trans hid'.symm))]
  · obtain ⟨r₂, hr₂, hid₂, htype⟩ := hk ev' hm r' hmem'
    have hpk := ((serve_valid cfg hv acts).2 ev hev).conversations_pk
    rw [← htype, hpk.eq_of_mem hr₂ hmem (hid₂.trans (hid'.trans hid.symm))]

theorem mem_attempts_of_recipient {i : ℕ} {request : SendMessageRequest} {uuid : String}
    {response : SendMessageResponse} {u : UserId} {d : DeviceId}
    (hi : (serve cfg init acts).threads[i]? =
      some ⟨.sendEnvelope request uuid, .ret (.ok response)⟩)
    (hne : ¬ (u = request.senderUserId ∧ d = request.senderDeviceId))
    (hrec : Recipient i request.conversationId u d (serve cfg init acts).trace) :
    (response.envelopeId, u, d) ∈ attempts (localTrace i (serve cfg init acts).trace) := by
  obtain ⟨now, conv, ⟨evF, hF, hfound⟩, evL, hL, hlist, hcov⟩ := (sent_of_finished hv hi).covered
  obtain ⟨hF, -⟩ := mem_of_mem_localTrace hF
  obtain ⟨hL, htid⟩ := mem_of_mem_localTrace hL
  have hin := hrec.participant evL hL ⟨htid, hlist⟩
  have hu : u ∈ participants conv request.conversationId evL.pre.db := by
    cases hf : ConversationRepository.findById request.conversationId evL.pre.db with
    | none => simp [ConversationRepository.isUserInConversation, hf] at hin
    | some conv' =>
      have hp := mem_participants hf hin
      unfold participants at hp ⊢
      rwa [type_eq_of_found hv hF hL hfound hf]
  obtain ⟨evD, hD, hcall, htried⟩ := hcov u hu
  obtain ⟨hD, htidD⟩ := mem_of_mem_localTrace hD
  obtain ⟨dev, hdev, hk, hact⟩ := hrec.active evD hD htidD hcall
  obtain ⟨rfl, rfl⟩ := Prod.mk.inj hk
  refine htried dev (DeviceRepository.mem_getDevicesForUser.mpr ⟨hdev, rfl⟩) ?_
  exact decide_eq_true ⟨by simp [hact], hne⟩

/-- Before a send persists a pair it has stored the envelope, and listed the participants and then
the device. -/
theorem served_of_persist (hwired : ∀ c, .spawn (.single c) ∈ acts → c.routine)
    {tr₁ tr₂ : List Ev} {ev : Ev} {p : Pair} {request : SendMessageRequest} {uuid : String}
    {prog : ServerProg (Result SendMessageResponse)}
    (hi : (serve cfg init acts).threads[ev.tid]? = some ⟨.sendEnvelope request uuid, prog⟩)
    (htr : (serve cfg init acts).trace = tr₁ ++ ev :: tr₂) (hp : persist? ev = some p) :
    (∃ ev' ∈ tr₁, Sends ev.tid p.1 ev') ∧
      After (Reads ev.tid request.conversationId) (Lists p.2.1 p.2.2) tr₁ := by
  have hfan : Always (FanStep cfg) (localTrace ev.tid (serve cfg init acts).trace) :=
    fanStep_run hv (fun c hc => plain_of_routine c (hwired c hc)) ev.tid
  rw [htr, localTrace, List.filter_append, List.filter_cons_of_pos (by simp)] at hfan
  -- the call before found the queue full
  obtain ⟨ev', hlast, hatt⟩ : ∃ ev', (localTrace ev.tid tr₁).getLast? = some ev' ∧
      attempt? ev' = some p := by
    rcases fanStep_cases hfan.at with ⟨p', -, hnone, -⟩ | ⟨p', -, hper, -, ho⟩ | ⟨-, hnone, -⟩
    · rw [hp] at hnone; cases hnone
    · obtain rfl := Option.some.inj (hp.symm.trans hper)
      obtain ⟨ev', hlast, ha⟩ := Option.bind_eq_some_iff.mp ho
      split at ha
      · cases ha
      · exact ⟨ev', hlast, ha⟩
    · rw [hp] at hnone; cases hnone
  obtain ⟨es, hes⟩ := List.getLast?_eq_some_iff.mp hlast
  have hstep : FanStep cfg es ev' := by
    have h := hfan.of_append
    rw [← localTrace, hes] at h
    exact (always_snoc.mp h).2
  obtain ⟨htid, m₁, m₂, rfl, rfl, -⟩ := localTrace_eq_append_cons hes
  have hconv : ∀ u d q, ev'.call = .delivery (.enqueue u d q) →
      q.conversationId = request.conversationId := by
    intro u d q hcall
    have hmem : ev' ∈ (serve cfg init acts).trace := by simp [htr]
    obtain ⟨t, ht, hmay⟩ := Op.mayCall_of_mem_trace cfg hmem
    rw [htid, hi] at ht
    obtain rfl := Option.some.inj ht
    rw [hcall] at hmay
    exact of_decide_eq_true hmay
  unfold attempt? at hatt
  split at hatt
  · rename_i u d q hcall
    obtain rfl := Option.some.inj hatt
    unfold FanStep at hstep
    rw [hcall] at hstep
    obtain ⟨-, -, ⟨ev₁, h₁, hst⟩, hafter⟩ := hstep
    obtain ⟨hmem, htid₁⟩ := mem_of_mem_localTrace h₁
    rw [hconv u d q hcall] at hafter
    exact ⟨⟨ev₁, List.mem_append_left _ hmem, htid₁, hst⟩,
      (after_of_localTrace hafter).append _⟩
  · cases hatt

theorem calm_run (hwired : ∀ c, .spawn (.single c) ∈ acts → c.routine)
    (hsafe : ∀ ev ∈ (serve cfg init acts).trace, Safe cfg ev) {i : ℕ} {p : Pair}
    {request : SendMessageRequest} {uuid : String}
    {prog : ServerProg (Result SendMessageResponse)}
    (hi : (serve cfg init acts).threads[i]? = some ⟨.sendEnvelope request uuid, prog⟩)
    (hrec : Recipient i request.conversationId p.2.1 p.2.2 (serve cfg init acts).trace)
    (hack : ¬ After (Sends i p.1) (Acks p) (serve cfg init acts).trace)
    (hdel : ¬ After (Sends i p.1) (Deletes cfg p.1) (serve cfg init acts).trace)
    (hleave : ¬ After (Reads i request.conversationId) (Leaves cfg request.conversationId p.2.1)
      (serve cfg init acts).trace) :
    Always (Calm cfg i request.conversationId p) (serve cfg init acts).trace := by
  refine always_of_forall fun tr₁ ev tr₂ htr => ?_
  have hev : ev ∈ (serve cfg init acts).trace := by simp [htr]
  obtain ⟨t, ht, hmay⟩ := Op.mayCall_of_mem_trace cfg hev
  refine ⟨not_unwired_of_mayCall ?_ hmay, hsafe ev hev, ?_, ?_, ?_, hrec.participant ev hev, ?_, ?_⟩
  · intro c hc
    exact hwired c (hc ▸ (voxServer cfg).op_spawned (List.mem_of_getElem? ht))
  · exact (htr ▸ not_after_iff.mp hack).at
  · exact (htr ▸ not_after_iff.mp hdel).at
  · exact (htr ▸ not_after_iff.mp hleave).at
  · rintro e rfl hcall
    rw [hi] at ht
    obtain rfl := Option.some.inj ht
    rw [hcall] at hmay
    exact of_decide_eq_true hmay
  · rintro rfl hp
    exact served_of_persist hv hwired hi htr hp

end Valid

theorem pushes_of_accepted {ev : Ev} {p : Pair} (hsafe : Safe cfg ev) (ha : attempt? ev = some p)
    (hacc : accepted cfg ev) : Pushes cfg p ev := by
  obtain ⟨i, c, s⟩ := ev
  unfold attempt? at ha
  split at ha
  · rename_i u d q hcall
    obtain rfl : c = _ := hcall
    obtain rfl := Option.some.inj ha
    have hok : (DeliveryManager.enqueue cfg.maxQueueDepthPerDevice u d q s).1 = .ok () :=
      of_decide_eq_true hacc
    have hroom : ¬ (s.queues (deviceScopeKey u d)).length ≥ cfg.maxQueueDepthPerDevice := by
      intro hfull
      simp [DeliveryManager.enqueue, hfull] at hok
    obtain ⟨n, hn⟩ : ∃ n, s.senders (deviceScopeKey u d) = some n :=
      Option.isSome_iff_exists.mp (hsafe.resolve_left hroom)
    refine ⟨q, n, rfl, rfl, hn, ?_⟩
    show (DeliveryManager.enqueue cfg.maxQueueDepthPerDevice u d q s).2.pushed = _
    simp [DeliveryManager.enqueue, hroom, WsPushRegistry.notify,
      DeliveryManager.setQueue, hn, queueKey]
  · cases ha

theorem Held.pending {i : ℕ} {c : ConversationId} {p : Pair} {tr : List Ev} {db : Database}
    (h : Held i c p tr db) (hp : ∃ ev ∈ tr, ev.tid = i ∧ persist? ev = some p) :
    ∃ r ∈ EnvelopeRepository.pendingRows p.2.1 p.2.2 db, r.envelopeId = p.1 := by
  obtain ⟨hs, -, r, hr, rfl⟩ := h.row hp
  obtain ⟨e, he, hid, -⟩ := h.envelope hs
  refine ⟨e, List.mem_flatMap.mpr ⟨e, he, List.mem_map.mpr ⟨r, ?_, rfl⟩⟩, hid⟩
  refine List.mem_filter.mpr ⟨hr, decide_eq_true ⟨?_, h.unmarked hs r hr rfl⟩⟩
  rw [hid]

end Run

/-- In the wired server, when every send queues only for connected devices unless their queue is
full, and deliveries are purged only for users who are not in the conversation, no envelope is
lost for a device of a participant. -/
theorem not_lost (cfg : ServerConfig) {init : Server} {acts : List Act} (hv : init.db.Valid)
    (hwired : ∀ c, .spawn (.single c) ∈ acts → c.routine)
    (hsafe : ∀ ev ∈ (serve cfg init acts).trace, Safe cfg ev) {i : ℕ}
    {request : SendMessageRequest} {uuid : String} {response : SendMessageResponse}
    (hi : (serve cfg init acts).threads[i]? =
      some ⟨.sendEnvelope request uuid, .ret (.ok response)⟩) {u : UserId} {d : DeviceId}
    (hne : ¬ (u = request.senderUserId ∧ d = request.senderDeviceId))
    (hrec : Recipient i request.conversationId u d (serve cfg init acts).trace) :
    NotLost cfg i request.conversationId (response.envelopeId, u, d) (serve cfg init acts).trace
      (serve cfg init acts).state := by
  by_contra hlost
  simp only [NotLost, not_or] at hlost
  obtain ⟨hpush, hpend, hack, hdel, hleave⟩ := hlost
  have hcalm := calm_run (p := (response.envelopeId, u, d)) hv hwired hsafe hi hrec hack hdel hleave
  have hheld := ((voxServer cfg).always_invariant hcalm
    (I := fun tr s => Held i request.conversationId (response.envelopeId, u, d) tr s.db)
    ⟨hv, by simp, by simp, by simp, fun h => by simpa using h.exists_mem.1, by simp⟩
    (fun tr s j c hc h => @Held.call cfg i _ _ tr ⟨j, c, s⟩ h hc) (fun tr s e h => h)).1
  have hfan : Always (FanStep cfg) (localTrace i (serve cfg init acts).trace) :=
    fanStep_run hv (fun c hc => plain_of_routine c (hwired c hc)) i
  -- the pair was tried and is not owed, so it has arrived: in the queue, or persisted
  have hatt := mem_attempts_of_recipient hv hi hne hrec
  have hcount := count_arrivals_add_owed hfan (response.envelopeId, u, d)
  rw [(sent_of_finished hv hi).idle] at hcount
  have harr := List.count_pos_iff.mp (hcount ▸ List.count_pos_iff.mpr hatt)
  obtain ⟨ev, hev, ha⟩ := List.mem_filterMap.mp harr
  obtain ⟨hev, htid⟩ := mem_of_mem_localTrace hev
  unfold arrival? at ha
  split at ha
  · exact hpush ⟨ev, hev, htid, pushes_of_accepted (hsafe ev hev) ha ‹_›⟩
  · exact hpend (hheld.pending ⟨ev, hev, htid, ha⟩)

def sendOnce : List Act :=
  .spawn (.sendEnvelope ⟨"a", "d", "c", "x", "e", 0, none⟩ "") :: List.replicate 10 (.run 0)

def connectedMember : Server :=
  { twoMembers with senders := fun k => if k = deviceScopeKey "b" "d" then some 7 else none }

theorem sendOnce_not_lost : NotLost default 0 "c" ("e", "b", "d")
    (serve default connectedMember sendOnce).trace
    (serve default connectedMember sendOnce).state := by
  have hi : (serve default connectedMember sendOnce).threads[0]? =
      some ⟨.sendEnvelope ⟨"a", "d", "c", "x", "e", 0, none⟩ "", .ret (.ok ⟨"e", 0, 1⟩)⟩ := rfl
  have hwired : ∀ c, .spawn (.single c) ∈ sendOnce → c.routine := by
    simp [sendOnce, List.replicate]
  exact not_lost default (by decide) hwired (by decide) hi (by decide) ⟨by decide, by decide⟩

/-- Without a connection the envelope is queued and pushed to nobody, and the device is not told
of it later. -/
theorem sendOnce_lost :
    (serve default twoMembers sendOnce).threads[0]? =
      some ⟨.sendEnvelope ⟨"a", "d", "c", "x", "e", 0, none⟩ "", .ret (.ok ⟨"e", 0, 1⟩)⟩ ∧
    Recipient 0 "c" "b" "d" (serve default twoMembers sendOnce).trace ∧
    ¬ NotLost default 0 "c" ("e", "b", "d") (serve default twoMembers sendOnce).trace
      (serve default twoMembers sendOnce).state := by
  refine ⟨rfl, ⟨by decide, by decide⟩, ?_⟩
  rintro (⟨ev, hev, -, q, n, -, -, hn, -⟩ | hpend | hack | hdel | hleave)
  · have hnone : ∀ ev ∈ (serve default twoMembers sendOnce).trace,
        ev.pre.senders (queueKey ("e", "b", "d")) = none := by decide
    rw [hnone ev hev] at hn
    cases hn
  · exact absurd hpend (by decide)
  · obtain ⟨ev, hev, now, hcall, hok⟩ := hack.exists_mem.2
    have hnone : ∀ ev ∈ (serve default twoMembers sendOnce).trace,
        ev.pre.db.deliveryState = [] := by decide
    simp [EnvelopeRepository.markAcked, EnvelopeRepository.updateDelivery, hnone ev hev] at hok
  · obtain ⟨ev, hev, hd⟩ := hdel.exists_mem.2
    exact (by decide : ∀ ev ∈ (serve default twoMembers sendOnce).trace,
      ¬ Deletes default "e" ev) ev hev hd
  · obtain ⟨ev, hev, hl⟩ := hleave.exists_mem.2
    exact (by decide : ∀ ev ∈ (serve default twoMembers sendOnce).trace,
      ¬ Leaves default "c" "b" ev) ev hev hl

end VoxServer.Delivery
