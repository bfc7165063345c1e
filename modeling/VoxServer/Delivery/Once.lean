import VoxServer.Delivery.Places

/-! # Pairs arrive at most once

An envelope id is stored by one send only, and that send tries each device once, so
no pair arrives twice in a run that deletes nothing: neither in a queue nor as a
delivery state. Envelope and device are there before the pair arrives.
-/

namespace VoxServer.Delivery

open Interleaving Prog

def arrivals (cfg : ServerConfig) (tr : List Ev) : List Pair := tr.filterMap (arrival? cfg)

section Local

variable {cfg : ServerConfig} {es : List Ev} {ev : Ev} {p : Pair}

theorem count_toList {a : Option Pair} : a.toList.count p = if a = some p then 1 else 0 := by
  cases a <;> simp [List.count_singleton]

theorem count_attempts_snoc : (attempts (es ++ [ev])).count p =
    (attempts es).count p + if attempt? ev = some p then 1 else 0 := by
  rw [attempts_snoc, List.count_append, count_toList]

theorem count_arrivals_snoc : (arrivals cfg (es ++ [ev])).count p =
    (arrivals cfg es).count p + arrivesBy cfg p ev := by
  have h : arrivals cfg (es ++ [ev]) = arrivals cfg es ++ (arrival? cfg ev).toList := by
    rw [arrivals, List.filterMap_append, ← arrivals]
    cases ha : arrival? cfg ev <;> simp [ha]
  rw [h, List.count_append, count_toList, arrivesBy]

/-- A call tries a new pair, persists the pair that is owed, or has no part in the fan-out. -/
theorem fanStep_cases (h : FanStep cfg es ev) :
    (∃ p, attempt? ev = some p ∧ persist? ev = none ∧ owed cfg es = none ∧ p ∉ attempts es ∧
      (∃ ev' ∈ es, Stores p.1 ev') ∧ ∃ ev' ∈ es, Lists p.2.1 p.2.2 ev') ∨
    (∃ p, attempt? ev = none ∧ persist? ev = some p ∧ accepted cfg ev = false ∧
      owed cfg es = some p) ∨
    (attempt? ev = none ∧ persist? ev = none ∧ owed cfg es = none) := by
  obtain ⟨i, c, s⟩ := ev
  unfold FanStep at h
  split at h
  case h_1 u d q hc =>
    obtain rfl : c = _ := hc
    exact .inl ⟨_, rfl, rfl, h.1, h.2.1, h.2.2.1, h.2.2.2.exists_mem.2⟩
  case h_2 hc =>
    obtain rfl : c = _ := hc
    exact .inr (.inr ⟨rfl, rfl, h.1⟩)
  case h_3 hc =>
    obtain rfl : c = _ := hc
    exact .inr (.inl ⟨_, rfl, rfl, rfl, h⟩)
  case h_4 h₁ h₂ h₃ =>
    refine .inr (.inr ⟨?_, ?_, h⟩)
    · unfold attempt?
      split
      · rename_i hc; exact absurd hc (h₁ _ _ _)
      · rfl
    · unfold persist?
      split
      · rename_i hc; exact absurd hc (h₃ _ _ _ _)
      · rfl

theorem count_arrivals_add_owed (h : Always (FanStep cfg) es) (p : Pair) :
    (arrivals cfg es).count p + (if owed cfg es = some p then 1 else 0) =
      (attempts es).count p := by
  induction es using List.reverseRecOn with
  | nil => rfl
  | append_singleton es ev ih =>
    obtain ⟨h, hstep⟩ := always_snoc.mp h
    have ih := ih h
    rw [count_arrivals_snoc, count_attempts_snoc, owed_snoc, arrivesBy, arrival?]
    rcases fanStep_cases hstep with ⟨p', ha, hp, ho, -⟩ | ⟨p', ha, hp, hacc, ho⟩ | ⟨ha, hp, ho⟩
    · rw [ho] at ih
      cases hacc : accepted cfg ev <;> simp_all
    · rw [ho] at ih
      simp_all
    · rw [ho] at ih
      simp_all

theorem nodup_attempts (h : Always (FanStep cfg) es) : (attempts es).Nodup := by
  induction es using List.reverseRecOn with
  | nil => exact List.nodup_nil
  | append_singleton es ev ih =>
    obtain ⟨h, hstep⟩ := always_snoc.mp h
    rw [attempts_snoc]
    rcases fanStep_cases hstep with ⟨p, ha, -, -, hn, -⟩ | ⟨p, ha, -⟩ | ⟨ha, -⟩
    · rw [ha]
      exact (ih h).append (List.nodup_singleton p) (by simpa using hn)
    · simpa [ha] using ih h
    · simpa [ha] using ih h

theorem served_of_mem_attempts (h : Always (FanStep cfg) es) (hp : p ∈ attempts es) :
    (∃ ev ∈ es, Stores p.1 ev) ∧ ∃ ev ∈ es, Lists p.2.1 p.2.2 ev := by
  obtain ⟨ev, hev, ha⟩ := List.mem_filterMap.mp hp
  obtain ⟨es₁, es₂, rfl⟩ := List.append_of_mem hev
  rcases fanStep_cases h.at with
    ⟨p', ha', -, -, -, ⟨e₁, h₁, hs⟩, e₂, h₂, hl⟩ | ⟨p', ha', -⟩ | ⟨ha', -⟩
  · obtain rfl : p' = p := Option.some.inj (ha'.symm.trans ha)
    exact ⟨⟨e₁, List.mem_append_left _ h₁, hs⟩, e₂, List.mem_append_left _ h₂, hl⟩
  · rw [ha] at ha'; cases ha'
  · rw [ha] at ha'; cases ha'

theorem mem_attempts_of_mem_arrivals (h : Always (FanStep cfg) es) (hp : p ∈ arrivals cfg es) :
    p ∈ attempts es := by
  have hc := count_arrivals_add_owed h p
  have hpos := List.count_pos_iff.mpr hp
  exact List.count_pos_iff.mp (by omega)

theorem served_of_arrival_local (h : Always (FanStep cfg) es) (hstep : FanStep cfg es ev)
    (ha : arrival? cfg ev = some p) :
    (∃ ev' ∈ es, Stores p.1 ev') ∧ ∃ ev' ∈ es, Lists p.2.1 p.2.2 ev' := by
  unfold arrival? at ha
  rcases fanStep_cases hstep with ⟨p', hatt, hper, -, -, hserved⟩ | ⟨p', hatt, hper, hacc, ho⟩ |
    ⟨hatt, hper, -⟩
  · rw [hatt, hper] at ha
    split at ha
    · obtain rfl := Option.some.inj ha
      exact hserved
    · cases ha
  · rw [hacc, hper] at ha
    obtain rfl := Option.some.inj ha
    exact served_of_mem_attempts h (mem_attempts_of_owed ho)
  · rw [hatt, hper, ite_self] at ha
    cases ha

end Local

/-- What was stored at the start or by the calls is in the database, and so is what they listed. -/
structure Kept (init : Database) (tr : List Ev) (db : Database) : Prop where
  initial : ∀ e ∈ init.encryptedEnvelopes, e ∈ db.encryptedEnvelopes
  stored : ∀ ev ∈ tr, ∀ e, Stores e ev → ∃ r ∈ db.encryptedEnvelopes, r.envelopeId = e
  listed : ∀ ev ∈ tr, ∀ u d, Lists u d ev → ∃ r ∈ db.devices, r.key = (u, d)

section Run

variable {cfg : ServerConfig} {init : Server} {acts : List Act}

variable (cfg) in
theorem stored_of_stores {e : EnvelopeId} {ev : Ev} (h : Stores e ev) :
    (∀ r ∈ ev.pre.db.encryptedEnvelopes, r.envelopeId ≠ e) ∧
      ∃ r ∈ (ev.call.exec cfg ev.pre).2.db.encryptedEnvelopes,
        r.envelopeId = e ∧ ev.call = .envelopes (.storeEnvelope r) := by
  obtain ⟨i, c, s⟩ := ev
  obtain ⟨env, rfl, rfl, hok⟩ := h
  obtain ⟨hnew, -, -, hdb⟩ :=
    EnvelopeRepository.insertEnvelope_ok (EnvelopeRepository.storeEnvelope_ok hok)
  refine ⟨hnew, env, ?_, rfl, rfl⟩
  show env ∈ (EnvelopeRepository.storeEnvelope env s.db).2.encryptedEnvelopes
  rw [hdb]
  exact List.mem_append_right _ (.head _)

theorem not_isAdmin_of_not_removes {c : Call} (h : ¬ c.removes) : ¬ c.isAdmin := by
  intro ha
  cases c with
  | admin a => exact h rfl
  | _ => cases ha

theorem Kept.call {tr : List Ev} {ev : Ev} (h : Kept init.db tr ev.pre.db)
    (hrem : ¬ ev.call.removes) : Kept init.db (tr ++ [ev]) (ev.call.exec cfg ev.pre).2.db := by
  refine ⟨fun e he => ev.call.exec_keeps_envelope cfg hrem (h.initial e he), ?_, ?_⟩
  · intro ev' hev e hs
    rcases List.mem_append.mp hev with hev | hev
    · obtain ⟨r, hr, hid⟩ := h.stored ev' hev e hs
      exact ⟨r, Call.exec_keeps_envelope cfg hrem hr, hid⟩
    · obtain rfl := List.mem_singleton.mp hev
      obtain ⟨r, hr, hid, -⟩ := (stored_of_stores cfg hs).2
      exact ⟨r, hr, hid⟩
  · intro ev' hev u d hl
    refine Call.exec_keeps_device cfg (not_isAdmin_of_not_removes hrem) ?_
    rcases List.mem_append.mp hev with hev | hev
    · exact h.listed ev' hev u d hl
    · obtain rfl := List.mem_singleton.mp hev
      obtain ⟨-, dev, hd, rfl⟩ := hl
      obtain ⟨hd', rfl⟩ := DeviceRepository.mem_getDevicesForUser.mp hd
      exact ⟨dev, hd', rfl⟩

theorem kept_run (hrem : ∀ ev ∈ (serve cfg init acts).trace, ¬ ev.call.removes) :
    Always (fun tr ev => Kept init.db tr ev.pre.db) (serve cfg init acts).trace := by
  refine ((voxServer cfg).always_invariant (I := fun tr s => Kept init.db tr s.db)
    (Q := fun _ ev => ¬ ev.call.removes) (always_of_mem hrem) ?_ ?_ ?_).2
  · exact ⟨fun _ h => h, by simp, by simp⟩
  · exact fun tr s i c hc h => @Kept.call cfg init tr ⟨i, c, s⟩ h hc
  · exact fun tr s e h => ⟨h.initial, h.stored, h.listed⟩

theorem tid_eq_of_stores {e : EnvelopeId} {ev ev' : Ev}
    (hkept : Always (fun tr ev => ∀ ev' ∈ tr, ∀ e, Stores e ev' →
      ∃ r ∈ ev.pre.db.encryptedEnvelopes, r.envelopeId = e) (serve cfg init acts).trace)
    (hev : ev ∈ (serve cfg init acts).trace) (hev' : ev' ∈ (serve cfg init acts).trace)
    (hs : Stores e ev) (hs' : Stores e ev') : ev.tid = ev'.tid := by
  by_contra hne
  rcases hkept.of_ne hev hev' (fun h => hne (congrArg Event.tid h)) with ⟨m, hm, h⟩ | ⟨m, hm, h⟩
  · obtain ⟨r, hr, hid⟩ := h ev hm e hs
    exact (stored_of_stores cfg hs').1 r hr hid
  · obtain ⟨r, hr, hid⟩ := h ev' hm e hs'
    exact (stored_of_stores cfg hs).1 r hr hid

/-- In a run that deletes nothing, the calls that store an envelope id are of one operation. -/
theorem tid_eq_of_not_removes (hrem : ∀ ev ∈ (serve cfg init acts).trace, ¬ ev.call.removes)
    (e : EnvelopeId) : ∀ ev ∈ (serve cfg init acts).trace,
      ∀ ev' ∈ (serve cfg init acts).trace, Stores e ev → Stores e ev' → ev.tid = ev'.tid := by
  intro ev hev ev' hev' hs hs'
  have hkept := (kept_run hrem).imp fun _ _ h => h.stored
  exact tid_eq_of_stores hkept hev hev' hs hs'

variable (hfan : ∀ i, Always (FanStep cfg) (localTrace i (serve cfg init acts).trace)) {p : Pair}

include hfan in
/-- The operation that brings a pair has stored its envelope and listed its device before. -/
theorem served_of_arrival {tr₁ tr₂ : List Ev} {ev : Ev}
    (htr : (serve cfg init acts).trace = tr₁ ++ ev :: tr₂) (ha : arrival? cfg ev = some p) :
    (∃ ev' ∈ localTrace ev.tid tr₁, Stores p.1 ev') ∧
      ∃ ev' ∈ localTrace ev.tid tr₁, Lists p.2.1 p.2.2 ev' := by
  have h := hfan ev.tid
  rw [htr] at h
  simp only [localTrace, List.filter_append, List.filter_cons, decide_true, if_true] at h
  exact served_of_arrival_local h.of_append h.at ha

theorem count_arrivals_eq_local {tr : List Ev} {i : ℕ}
    (h : ∀ ev ∈ tr, arrival? cfg ev = some p → ev.tid = i) :
    (arrivals cfg tr).count p = (arrivals cfg (localTrace i tr)).count p := by
  induction tr using List.reverseRecOn with
  | nil => rfl
  | append_singleton tr ev ih =>
    have hlocal : localTrace i (tr ++ [ev]) =
        localTrace i tr ++ if ev.tid = i then [ev] else [] := by
      simp [localTrace, List.filter_append, List.filter_singleton]
    rw [count_arrivals_snoc, ih fun ev' h' => h ev' (List.mem_append_left _ h'), hlocal]
    split
    · rw [count_arrivals_snoc]
    · rename_i hne
      rw [arrivesBy, if_neg fun ha => hne (h ev (by simp) ha), List.append_nil]
      rfl

section OneSend

variable (hone : ∀ ev ∈ (serve cfg init acts).trace, ∀ ev' ∈ (serve cfg init acts).trace,
  Stores p.1 ev → Stores p.1 ev' → ev.tid = ev'.tid)

include hfan hone

theorem tid_eq_of_arrival {i : ℕ} {ev ev' : Ev} (hev : ev ∈ (serve cfg init acts).trace)
    (ha : arrival? cfg ev = some p) (hev' : ev' ∈ localTrace i (serve cfg init acts).trace)
    (hs : Stores p.1 ev') : ev.tid = i := by
  obtain ⟨tr₁, tr₂, htr⟩ := List.append_of_mem hev
  obtain ⟨⟨e, he, hse⟩, -⟩ := served_of_arrival hfan htr ha
  obtain ⟨he, htid⟩ := mem_of_mem_localTrace he
  obtain ⟨hmem, rfl⟩ := mem_of_mem_localTrace hev'
  exact htid.symm.trans (hone e (by simp [htr, he]) ev' hmem hse hs)

theorem count_arrivals_le_one : (arrivals cfg (serve cfg init acts).trace).count p ≤ 1 := by
  by_cases hp : p ∈ arrivals cfg (serve cfg init acts).trace
  · obtain ⟨ev, hev, ha⟩ := List.mem_filterMap.mp hp
    obtain ⟨tr₁, tr₂, htr⟩ := List.append_of_mem hev
    obtain ⟨⟨ev', hev', hs⟩, -⟩ := served_of_arrival hfan htr ha
    replace hev' : ev' ∈ localTrace ev.tid (serve cfg init acts).trace := by
      rw [htr]
      exact ((List.sublist_append_left _ _).filter _).subset hev'
    rw [count_arrivals_eq_local fun ev₂ h₂ ha₂ => tid_eq_of_arrival hfan hone h₂ ha₂ hev' hs]
    have hc := count_arrivals_add_owed (hfan ev.tid) p
    have hn := List.nodup_iff_count_le_one.mp (nodup_attempts (hfan ev.tid)) p
    omega
  · rw [List.count_eq_zero.mpr hp]
    exact Nat.zero_le 1

theorem count_arrivals_eq_one {i : ℕ} (hp : p ∈ attempts (localTrace i (serve cfg init acts).trace))
    (ho : owed cfg (localTrace i (serve cfg init acts).trace) = none) :
    (arrivals cfg (serve cfg init acts).trace).count p = 1 := by
  obtain ⟨⟨ev', hev', hs⟩, -⟩ := served_of_mem_attempts (hfan i) hp
  rw [count_arrivals_eq_local fun ev₂ h₂ ha₂ => tid_eq_of_arrival hfan hone h₂ ha₂ hev' hs]
  have hc := count_arrivals_add_owed (hfan i) p
  rw [ho] at hc
  have hn := List.nodup_iff_count_le_one.mp (nodup_attempts (hfan i)) p
  have hpos := List.count_pos_iff.mpr hp
  simp only [reduceCtorEq, if_false] at hc
  omega

end OneSend

variable (hrem : ∀ ev ∈ (serve cfg init acts).trace, ¬ ev.call.removes)
include hrem hfan

omit hrem in
theorem served_of_mem_arrivals {tr₁ tr₂ : List Ev} {ev : Ev}
    (htr : (serve cfg init acts).trace = tr₁ ++ ev :: tr₂) (hp : p ∈ arrivals cfg (tr₁ ++ [ev])) :
    (∃ ev' ∈ tr₁, Stores p.1 ev') ∧ ∃ ev' ∈ tr₁, Lists p.2.1 p.2.2 ev' := by
  obtain ⟨ev₁, hev₁, ha⟩ := List.mem_filterMap.mp hp
  obtain ⟨m₁, m₂, hm, hsub⟩ : ∃ m₁ m₂, (serve cfg init acts).trace = m₁ ++ ev₁ :: m₂ ∧
      m₁ ⊆ tr₁ := by
    rcases List.mem_append.mp hev₁ with h₁ | h₁
    · obtain ⟨m₁, m₂, rfl⟩ := List.append_of_mem h₁
      exact ⟨m₁, m₂ ++ ev :: tr₂, by simp [htr], by simp⟩
    · obtain rfl := List.mem_singleton.mp h₁
      exact ⟨tr₁, tr₂, htr, fun _ h => h⟩
  obtain ⟨⟨e₁, h₁, hs⟩, e₂, h₂, hl⟩ := served_of_arrival hfan hm ha
  exact ⟨⟨e₁, hsub (mem_of_mem_localTrace h₁).1, hs⟩, e₂, hsub (mem_of_mem_localTrace h₂).1, hl⟩

theorem grounded_of_mem_arrivals {tr₁ tr₂ : List Ev} {ev : Ev}
    (htr : (serve cfg init acts).trace = tr₁ ++ ev :: tr₂) (hp : p ∈ arrivals cfg (tr₁ ++ [ev])) :
    Grounded p ev.pre.db := by
  obtain ⟨⟨e₁, h₁, hs⟩, e₂, h₂, hl⟩ := served_of_mem_arrivals hfan htr hp
  have hk : Kept init.db tr₁ ev.pre.db := (htr ▸ kept_run hrem).at
  exact ⟨hk.stored e₁ h₁ _ hs, hk.listed e₂ h₂ _ _ hl⟩

theorem inRows_init_eq_zero (hv : init.db.Valid)
    (hp : p ∈ arrivals cfg (serve cfg init acts).trace) : inRows p init.db = 0 := by
  obtain ⟨ev, hev, ha⟩ := List.mem_filterMap.mp hp
  obtain ⟨tr₁, tr₂, htr⟩ := List.append_of_mem hev
  obtain ⟨⟨e₁, h₁, hs⟩, -⟩ := served_of_arrival hfan htr ha
  obtain ⟨m₁, m₂, rfl⟩ := List.append_of_mem (mem_of_mem_localTrace h₁).1
  have hk := kept_run hrem
  rw [htr, List.append_assoc, List.cons_append] at hk
  refine inRows_eq_zero.mpr ?_
  rintro r hr rfl
  obtain ⟨env, henv, hid⟩ := hv.delivery_envelope r hr
  exact (stored_of_stores cfg hs).1 env (hk.at.initial env henv) hid

end Run

end VoxServer.Delivery
