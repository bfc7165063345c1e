import VoxServer.Delivery.NoLoss

/-! # Sending an envelope once

Two sends with one envelope id can both pass the check for duplicates. It is the
insertion that lets one of them through, and every error exit of a send comes before
its first effect.
-/

namespace VoxServer.Delivery

open Interleaving Prog

/-- The call leaves envelopes, delivery states and queues as they are. -/
structure Quiet (cfg : ServerConfig) (ev : Ev) : Prop where
  envelopes : (ev.call.exec cfg ev.pre).2.db.encryptedEnvelopes = ev.pre.db.encryptedEnvelopes
  rows : (ev.call.exec cfg ev.pre).2.db.deliveryState = ev.pre.db.deliveryState
  queues : (ev.call.exec cfg ev.pre).2.queues = ev.pre.queues

/-- The call adds an entry for the envelope to a queue or to the delivery states. -/
def Adds (cfg : ServerConfig) (e : EnvelopeId) (ev : Ev) : Prop :=
  (∃ k, (ev.pre.queues k).countP (·.envelopeId = e) <
    ((ev.call.exec cfg ev.pre).2.queues k).countP (·.envelopeId = e)) ∨
  ev.pre.db.deliveryState.countP (·.envelopeId = e) <
    (ev.call.exec cfg ev.pre).2.db.deliveryState.countP (·.envelopeId = e)

def Succeeds (run : ServerRun) (i : ℕ) (e : EnvelopeId) : Prop :=
  ∃ request uuid response, run.threads[i]? =
    some ⟨.sendEnvelope request uuid, .ret (.ok response)⟩ ∧ response.envelopeId = e

def Fails (run : ServerRun) (i : ℕ) : Prop :=
  ∃ request uuid err, run.threads[i]? = some ⟨.sendEnvelope request uuid, .ret (.error err)⟩

section Calls

variable {cfg : ServerConfig} {ev : Ev} {e : EnvelopeId}

theorem quiet_of_routine (h : ev.call.routine) : Quiet cfg ev := by
  obtain ⟨i, c, s⟩ := ev
  cases c with
  | envelopes a =>
    cases a with
    | storeEnvelope | addDeliveryState | markDelivered | markAcked
    | deletePendingDeliveryForUserInConversation | deleteExpired => cases h
    | _ => exact ⟨rfl, rfl, rfl⟩
  | delivery a => cases h
  | admin a => cases h
  | _ => exact ⟨Call.exec_encryptedEnvelopes cfg (by simp) (by simp [Call.isAdmin]),
      Call.exec_deliveryState cfg (by simp) (by simp) (by simp [Call.isAdmin]),
      Call.exec_queues cfg (by simp)⟩

theorem Quiet.not_adds (h : Quiet cfg ev) : ¬ Adds cfg e ev := by
  rintro (⟨k, hk⟩ | hk)
  · rw [h.queues] at hk
    exact lt_irrefl _ hk
  · rw [h.rows] at hk
    exact lt_irrefl _ hk

end Calls

section Send

variable {cfg : ServerConfig}

/-- What the calls of a send have done for its result: nothing for an error, and stored the envelope
for a success. -/
def Settled (cfg : ServerConfig) (es : List Ev) : Result SendMessageResponse → Prop
  | .error _ => ∀ ev ∈ es, Quiet cfg ev
  | .ok response => ∃ ev ∈ es, Stores response.envelopeId ev

theorem settles_sendEnvelope (request : SendMessageRequest) (uuid : String) :
    (RelayService.sendEnvelope cfg request uuid).Spec (Call.exec cfg) (fun _ => True)
      (fun _ _ => True) (Settled cfg) [] := by
  have hquiet : ∀ es i c s, Call.routine c → (∀ ev ∈ es, Quiet cfg ev) →
      True ∧ ∀ ev ∈ es ++ [(⟨i, c, s⟩ : Ev)], Quiet cfg ev := by
    intro es i c s hc h
    refine ⟨trivial, fun ev hev => ?_⟩
    rcases List.mem_append.mp hev with hev | hev
    · exact h ev hev
    · obtain rfl := List.mem_singleton.mp hev
      exact quiet_of_routine hc
  refine ((calm_authorize request).tame.routine.spec hquiet (by simp)).bind fun es r h => ?_
  split
  · exact h
  dsimp only
  generalize (if request.envelopeId = "" then uuid else request.envelopeId) = e
  refine spec_perform_bind.mpr fun i s _ => ⟨trivial, ?_⟩
  replace h := (hquiet es i (.envelopes (.checkDuplicate e)) s rfl h).2
  split
  · exact h
  refine spec_perform_bind.mpr fun i s _ => ⟨trivial, ?_⟩
  replace h := (hquiet _ i .now s rfl h).2
  generalize (Call.exec cfg .now s).1 = now
  refine spec_perform_bind.mpr fun i s _ => ⟨trivial, ?_⟩
  generalize henv : RelayService.newEnvelope cfg request e now = env
  split
  · rename_i err herr
    rintro ev hev
    rcases List.mem_append.mp hev with hev | hev
    · exact h ev hev
    · obtain rfl := List.mem_singleton.mp hev
      have hsame := EnvelopeRepository.storeEnvelope_error herr
      exact ⟨congrArg Database.encryptedEnvelopes hsame, congrArg Database.deliveryState hsame, rfl⟩
  · -- from here on the send succeeds
    rename_i hok
    have hst : Stores e ⟨i, .envelopes (.storeEnvelope env), s⟩ := ⟨env, rfl, henv ▸ rfl, hok⟩
    have hkeep : ∀ es i c s, True → (∃ ev ∈ es, Stores e ev) →
        True ∧ ∃ ev ∈ es ++ [(⟨i, c, s⟩ : Ev)], Stores e ev := by
      rintro es i c s - ⟨ev, hev, hs⟩
      exact ⟨trivial, ev, List.mem_append_left _ hev, hs⟩
    refine ((only_true _).spec hkeep ⟨_, List.mem_append_right _ (.head _), hst⟩).bind ?_
    intro es us hes
    exact ((only_true _).spec hkeep hes).bind fun es n hes => hes

end Send

section Run

variable {cfg : ServerConfig} {init : Server} {acts : List Act} {i : ℕ}
  {request : SendMessageRequest} {uuid : String}

theorem arrival_of_adds {ev : Ev} {e : EnvelopeId}
    (hc : (Op.sendEnvelope request uuid).mayCall ev.call) (h : Adds cfg e ev) :
    ∃ p, arrival? cfg ev = some p ∧ p.1 = e := by
  by_cases hr : ev.call.routine
  · exact absurd h (quiet_of_routine hr).not_adds
  obtain ⟨j, c, s⟩ := ev
  cases c with
  | envelopes a =>
    cases a with
    | storeEnvelope env =>
      rcases h with ⟨k, hk⟩ | hk
      · exact absurd hk (lt_irrefl _)
      · replace hk := EnvelopeRepository.storeEnvelope_deliveryState env s.db ▸ hk
        exact absurd hk (lt_irrefl _)
    | addDeliveryState e' u d now =>
      refine ⟨(e', u, d), rfl, ?_⟩
      rcases h with ⟨k, hk⟩ | hk
      · exact absurd hk (lt_irrefl _)
      · by_contra hne
        rcases EnvelopeRepository.addDeliveryState_cases e' u d now s.db with he | he
        · exact absurd (congrArg Database.deliveryState he ▸ hk) (lt_irrefl _)
        · replace hk := congrArg Database.deliveryState he ▸ hk
          simp only [List.countP_append, List.countP_singleton] at hk
          rw [if_neg (by simpa using hne)] at hk
          exact absurd hk (lt_irrefl _)
    | _ => exact absurd hc hr
  | delivery a =>
    cases a with
    | enqueue u d q =>
      rcases DeliveryManager.enqueue_cases cfg.maxQueueDepthPerDevice u d q s with
        he | ⟨hok, hdb, hq⟩
      · exact absurd h (Quiet.not_adds ⟨by rw [Call.exec, DeliveryCall.exec, he],
          by rw [Call.exec, DeliveryCall.exec, he], by rw [Call.exec, DeliveryCall.exec, he]⟩)
      refine ⟨(q.envelopeId, u, d), if_pos (decide_eq_true hok), ?_⟩
      rcases h with ⟨k, hk⟩ | hk
      · by_contra hne
        replace hk := hq ▸ hk
        rcases eq_or_ne k (deviceScopeKey u d) with rfl | hk'
        · rw [Function.update_self, List.countP_append, List.countP_singleton,
            if_neg (by simpa using hne)] at hk
          exact absurd hk (lt_irrefl _)
        · rw [Function.update_of_ne hk'] at hk
          exact absurd hk (lt_irrefl _)
      · exact absurd (congrArg Database.deliveryState hdb ▸ hk) (lt_irrefl _)
    | _ => cases hc
  | conversations a => exact absurd (Call.routine_of_tame (c := .conversations a) hc) hr
  | attachments a => exact absurd (Call.routine_of_tame (c := .attachments a) hc) hr
  | _ => exact absurd hc hr

theorem fanStep_of_send (hv : init.db.Valid) {prog : ServerProg (Result SendMessageResponse)}
    (hi : (serve cfg init acts).threads[i]? = some ⟨.sendEnvelope request uuid, prog⟩) :
    Always (FanStep cfg) (localTrace i (serve cfg init acts).trace) :=
  ((voxServer cfg).spec_run (serve_valid cfg hv acts).2 hi (fans_sendEnvelope request uuid)).1

theorem stores_of_adds (hv : init.db.Valid) {prog : ServerProg (Result SendMessageResponse)}
    (hi : (serve cfg init acts).threads[i]? = some ⟨.sendEnvelope request uuid, prog⟩)
    {ev : Ev} (hev : ev ∈ localTrace i (serve cfg init acts).trace) {e : EnvelopeId}
    (h : Adds cfg e ev) :
    (∃ ev' ∈ localTrace i (serve cfg init acts).trace, Stores e ev') ∧
      ∀ response, prog = .ret (.ok response) → response.envelopeId = e := by
  obtain ⟨hmem, rfl⟩ := mem_of_mem_localTrace hev
  obtain ⟨t, ht, hmay⟩ := Op.mayCall_of_mem_trace cfg hmem
  rw [hi] at ht
  obtain rfl := Option.some.inj ht
  obtain ⟨p, ha, rfl⟩ := arrival_of_adds hmay h
  have hfan := fanStep_of_send hv hi
  have hatt := mem_attempts_of_mem_arrivals hfan (List.mem_filterMap.mpr ⟨ev, hev, ha⟩)
  refine ⟨(served_of_mem_attempts hfan hatt).1, ?_⟩
  rintro response rfl
  exact ((sent_of_finished hv hi).ids p hatt).symm

theorem settled_of_finished {r : Result SendMessageResponse}
    (hi : (serve cfg init acts).threads[i]? = some ⟨.sendEnvelope request uuid, .ret r⟩) :
    Settled cfg (localTrace i (serve cfg init acts).trace) r :=
  ((voxServer cfg).spec_run (fun _ _ => trivial) hi (settles_sendEnvelope request uuid)).2

theorem stored_run (hdel : ∀ ev ∈ (serve cfg init acts).trace, ∀ e, ¬ Deletes cfg e ev) :
    Always (fun tr ev => ∀ ev' ∈ tr, ∀ e, Stores e ev' →
      ∃ r ∈ ev.pre.db.encryptedEnvelopes, r.envelopeId = e) (serve cfg init acts).trace := by
  refine ((voxServer cfg).always_invariant (always_of_mem hdel)
    (I := fun tr s => ∀ ev' ∈ tr, ∀ e, Stores e ev' →
      ∃ r ∈ s.db.encryptedEnvelopes, r.envelopeId = e) (by simp) ?_ (fun _ _ _ h => h)).2
  intro tr s j c hc h ev' hev e hs
  rcases List.mem_append.mp hev with hev | hev
  · exact not_and_not_right.mp (hc e) (h ev' hev e hs)
  · obtain rfl := List.mem_singleton.mp hev
    obtain ⟨r, hr, hid, -⟩ := (stored_of_stores cfg hs).2
    exact ⟨r, hr, hid⟩

end Run

/-- In runs that delete no envelope: at most one send succeeds for an envelope id; a send that adds
entries for an id is that one, and returns success if it returns; and a send that fails changes
neither envelopes nor delivery states nor queues. -/
theorem envelope_sent_once (cfg : ServerConfig) {init : Server} {acts : List Act}
    (hv : init.db.Valid)
    (hdel : ∀ ev ∈ (serve cfg init acts).trace, ∀ e, ¬ Deletes cfg e ev) :
    (∀ e i j, Succeeds (serve cfg init acts) i e → Succeeds (serve cfg init acts) j e → i = j) ∧
    (∀ e ev request uuid prog, ev ∈ (serve cfg init acts).trace →
      (serve cfg init acts).threads[ev.tid]? = some ⟨.sendEnvelope request uuid, prog⟩ →
      Adds cfg e ev → (∀ i, Succeeds (serve cfg init acts) i e → i = ev.tid) ∧
        ∀ r, prog = .ret r → Succeeds (serve cfg init acts) ev.tid e) ∧
    (∀ i, Fails (serve cfg init acts) i →
      ∀ ev ∈ (serve cfg init acts).trace, ev.tid = i → Quiet cfg ev) := by
  have hkept := stored_run hdel
  -- whoever has stored the envelope is the one
  have hone : ∀ {e i j}, Succeeds (serve cfg init acts) i e →
      (∃ ev ∈ localTrace j (serve cfg init acts).trace, Stores e ev) → i = j := by
    rintro e i j ⟨request, uuid, response, hi, rfl⟩ ⟨ev', hev', hs'⟩
    obtain ⟨ev, hev, hs⟩ := settled_of_finished hi
    obtain ⟨hmem, rfl⟩ := mem_of_mem_localTrace hev
    obtain ⟨hmem', rfl⟩ := mem_of_mem_localTrace hev'
    exact tid_eq_of_stores hkept hmem hmem' hs hs'
  refine ⟨?_, ?_, ?_⟩
  · rintro e i j hi ⟨request, uuid, response, hj, rfl⟩
    exact hone hi (settled_of_finished hj)
  · rintro e ev request uuid prog hev hi hadds
    have hlocal : ev ∈ localTrace ev.tid (serve cfg init acts).trace := by
      simpa [localTrace] using hev
    obtain ⟨hst, hid⟩ := stores_of_adds hv hi hlocal hadds
    refine ⟨fun i hs => hone hs hst, ?_⟩
    rintro (err | response) rfl
    · exact absurd hadds (settled_of_finished hi ev hlocal).not_adds
    · exact ⟨request, uuid, response, hi, hid response rfl⟩
  · rintro i ⟨request, uuid, err, hi⟩ ev hev rfl
    exact settled_of_finished hi ev (by simpa [localTrace] using hev)

/-- Two sends with one id, which both pass the check for duplicates before the first one stores. -/
def racingSends : List Act :=
  [.spawn (.sendEnvelope ⟨"a", "d", "c", "x", "e", 0, none⟩ ""),
    .spawn (.sendEnvelope ⟨"b", "d", "c", "y", "e", 0, none⟩ "")] ++
  List.replicate 5 (.run 0) ++ List.replicate 5 (.run 1) ++ List.replicate 5 (.run 0) ++
  List.replicate 5 (.run 1)

theorem racingSends_once : (∀ i, Succeeds (serve default twoMembers racingSends) i "e" → i = 0) ∧
    ∀ ev ∈ (serve default twoMembers racingSends).trace, ev.tid = 1 → Quiet default ev := by
  have hdel : ∀ ev ∈ (serve default twoMembers racingSends).trace, ∀ e,
      ¬ Deletes default e ev := by
    rintro ev hev e ⟨⟨r, hr, hid⟩, hgone⟩
    have hrem : ∀ ev ∈ (serve default twoMembers racingSends).trace, ¬ ev.call.removes := by decide
    exact hgone ⟨r, Call.exec_keeps_envelope default (hrem ev hev) hr, hid⟩
  have h₀ : (serve default twoMembers racingSends).threads[0]? =
      some ⟨.sendEnvelope ⟨"a", "d", "c", "x", "e", 0, none⟩ "", .ret (.ok ⟨"e", 0, 1⟩)⟩ := rfl
  have h₁ : (serve default twoMembers racingSends).threads[1]? =
      some ⟨.sendEnvelope ⟨"b", "d", "c", "y", "e", 0, none⟩ "",
        .ret (.error ⟨.duplicate, "Envelope already exists"⟩)⟩ := rfl
  obtain ⟨hone, -, hfail⟩ := envelope_sent_once default (by decide) hdel
  exact ⟨fun i hi => hone "e" i 0 hi ⟨_, _, _, h₀, rfl⟩, hfail 1 ⟨_, _, _, h₁⟩⟩

end VoxServer.Delivery
