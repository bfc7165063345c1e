import VoxServer.Delivery.Once

/-! # Conservation of the fan-out

Whatever sends, dequeues, switches to offline delivery, acknowledgements and leaving
members do in between, a pair that a send has fanned out is in one place: it waits in
the queue of the device or as a delivery state, was returned by a dequeue, or was
purged. Nothing is lost and nothing is there twice.
-/

namespace VoxServer.Delivery

open Interleaving

/-- The operations under which the fan-out is conserved: all that delete neither envelopes nor
users. User ids have no separator byte, as the UUIDs that the server makes. -/
def conserving : Op → Bool
  | .single (.delivery (.dequeue u _ _)) => kSep ∉ u.toList
  | .single (.delivery (.switchToOffline u _)) => kSep ∉ u.toList
  | .single c => c.routine
  | .register _ _ uuid _ _ => kSep ∉ uuid.toList
  | .deleteUser _ => false
  | .maintenance => false
  | _ => true

/-- These operations, and those that delete envelopes or users. -/
def regular : Op → Bool
  | .deleteUser _ => true
  | .maintenance => true
  | o => conserving o

/-- No user id contains the separator byte. -/
def Separated (s : Server) : Prop := ∀ u ∈ s.db.users, kSep ∉ u.userId.toList

instance (s : Server) : Decidable (Separated s) :=
  inferInstanceAs (Decidable (∀ u ∈ s.db.users, _))

def returned (p : Pair) (tr : List Ev) : ℕ := (tr.map (returnedBy p)).sum

def purged (p : Pair) (tr : List Ev) : ℕ := (tr.map (purgedBy p)).sum

section Operations

variable {o : Op} {c : Call}

theorem not_removes_of_routine (h : c.routine) : ¬ c.removes := by
  unfold Call.removes
  split
  case h_3 => simp
  all_goals cases h

theorem regular_of_conserving (h : conserving o) : regular o := by
  cases o with
  | deleteUser u => rfl
  | maintenance => rfl
  | _ => exact h

theorem plain_of_regular (ho : regular (.single c)) : plain c := by
  replace ho : conserving (.single c) := ho
  unfold conserving at ho
  split at ho
  case h_3 h => cases h; exact plain_of_routine _ ho
  all_goals simp_all [plain]

theorem not_removes_of_conserving (ho : conserving o) (hc : o.mayCall c) : ¬ c.removes := by
  unfold Op.mayCall at hc
  split at hc
  case h_1 c' =>
    obtain rfl : c = c' := of_decide_eq_true hc
    unfold conserving at ho
    split at ho
    case h_3 h => cases h; exact not_removes_of_routine ho
    all_goals simp_all [Call.removes]
  case h_18 | h_19 => cases ho
  case h_20 => exact not_removes_of_routine (Call.routine_of_tame hc)
  all_goals simp [Call.removes]

theorem separated_of_regular {u : UserRecord} (ho : regular o)
    (hc : o.mayCall (.users (.createUser u))) : kSep ∉ u.userId.toList := by
  cases o with
  | single c =>
    obtain rfl := of_decide_eq_true hc
    cases ho
  | register r salt uuid d f =>
    obtain rfl := of_decide_eq_true hc
    exact of_decide_eq_true ho
  | _ => cases hc

theorem separated_of_direct {u : UserId} {d : DeviceId} (ho : regular o)
    (hc : (∃ n, o.mayCall (.delivery (.dequeue u d n))) ∨
      o.mayCall (.delivery (.switchToOffline u d))) : kSep ∉ u.toList := by
  cases o with
  | single c =>
    rcases hc with ⟨n, hc⟩ | hc
    · obtain rfl := of_decide_eq_true hc
      exact of_decide_eq_true ho
    · obtain rfl := of_decide_eq_true hc
      exact of_decide_eq_true ho
  | _ => rcases hc with ⟨n, hc⟩ | hc <;> cases hc

end Operations

/-- What a call needs to account for a pair: it deletes nothing and works on the queue of the
pair only for its device, and the pair arrives at most once, after its envelope and device. -/
structure Orderly (cfg : ServerConfig) (p : Pair) (tr : List Ev) (ev : Ev) : Prop where
  keeps : ¬ ev.call.removes
  ownQueue : ∀ k ∈ queueOf? ev.call, deviceScopeKey k.1 k.2 = queueKey p → k = p.2
  once : (arrivals cfg (tr ++ [ev])).count p ≤ 1
  grounded : p ∈ arrivals cfg (tr ++ [ev]) → Grounded p ev.pre.db

/-- What has arrived of the pair waits, was returned or was purged. -/
def Balanced (cfg : ServerConfig) (p : Pair) (tr : List Ev) (s : Server) : Prop :=
  (arrivals cfg tr).count p = waiting p s + returned p tr + purged p tr

theorem Balanced.call {cfg : ServerConfig} {p : Pair} {tr : List Ev} {ev : Ev}
    (h : Balanced cfg p tr ev.pre) (ho : Orderly cfg p tr ev) :
    Balanced cfg p (tr ++ [ev]) (ev.call.exec cfg ev.pre).2 := by
  have hcount := @count_arrivals_snoc cfg tr ev p
  have honce := ho.once
  unfold Balanced at h ⊢
  have hacc : Accounts cfg p ev := by
    refine accounts_call ho.keeps ho.ownQueue (by omega) fun hg => ho.grounded ?_
    refine List.count_pos_iff.mp ?_
    rw [hcount]
    rcases hg with hg | hg
    · unfold waiting at h
      omega
    · rw [arrivesBy, if_pos hg]
      omega
  have hret : returned p (tr ++ [ev]) = returned p tr + returnedBy p ev := by simp [returned]
  have hpur : purged p (tr ++ [ev]) = purged p tr + purgedBy p ev := by simp [purged]
  unfold Accounts at hacc
  omega

section Run

variable {cfg : ServerConfig} {init : Server} {acts : List Act} (hv : init.db.Valid)
  (hsep : Separated init)

section Separation

variable (hops : ∀ o, .spawn o ∈ acts → regular o)
include hops

theorem regular_of_thread {t : Thread Call Call.Reply Op Op.Res} {i : ℕ}
    (ht : (serve cfg init acts).threads[i]? = some t) : regular t.op :=
  hops _ ((voxServer cfg).op_spawned (List.mem_of_getElem? ht))

include hv in
theorem fanStep_of_regular (i : ℕ) :
    Always (FanStep cfg) (localTrace i (serve cfg init acts).trace) :=
  fanStep_run hv (fun c hc => plain_of_regular (hops (.single c) hc)) i

include hsep in
theorem separated_run : ∀ ev ∈ (serve cfg init acts).trace, Separated ev.pre := by
  refine ((voxServer cfg).state_invariant (J := Separated)
    (P := fun c => ∀ u, c = .users (.createUser u) → kSep ∉ u.userId.toList) hsep ?_ ?_ acts ?_).2
  · intro c s hc hs u hu
    rcases Call.userId_of_exec cfg hu with ⟨r, hr, he⟩ | ⟨r, rfl, he⟩
    · rw [← he]; exact hs r hr
    · rw [← he]; exact hc r rfl
  · exact fun e s hs => hs
  · rintro o ho
    refine (o.code_only cfg).mono ?_
    rintro c hc u rfl
    exact separated_of_regular (hops o ho) hc

include hv hsep in
theorem separated_of_lists {ev : Ev} (hev : ev ∈ (serve cfg init acts).trace) {u : UserId}
    {d : DeviceId} (hl : Lists u d ev) : kSep ∉ u.toList := by
  obtain ⟨-, dev, hd, -⟩ := hl
  obtain ⟨hd', rfl⟩ := DeviceRepository.mem_getDevicesForUser.mp hd
  obtain ⟨r, hr, he⟩ := ((serve_valid cfg hv acts).2 ev hev).devices_user dev hd'
  rw [← he]
  exact separated_run hsep hops ev hev r hr

include hv hsep in
theorem separated_queue {ev : Ev} (hev : ev ∈ (serve cfg init acts).trace)
    {k : UserId × DeviceId} (hk : queueOf? ev.call = some k) : kSep ∉ k.1.toList := by
  obtain ⟨tr₁, tr₂, htr⟩ := List.append_of_mem hev
  have hstep := (htr ▸ always_local (fanStep_of_regular hv hops)).at
  have hlists : ∀ {u : UserId} {d : DeviceId},
      (∃ ev' ∈ localTrace ev.tid tr₁, Lists u d ev') → kSep ∉ u.toList := by
    rintro u d ⟨ev', hev', hl⟩
    have hmem : ev' ∈ (serve cfg init acts).trace := by
      rw [htr]
      exact List.mem_append_left _ (mem_of_mem_localTrace hev').1
    exact separated_of_lists hv hsep hops hmem hl
  obtain ⟨t, ht, hc⟩ := Op.mayCall_of_mem_trace cfg hev
  have ho := regular_of_thread hops ht
  obtain ⟨i, c, s⟩ := ev
  cases c with
  | delivery a =>
    cases a with
    | enqueue u d q => cases hk; exact hlists hstep.2.2.2.exists_mem.2
    | purgeConversationFromDeviceQueue c u d => cases hk; exact hlists hstep.2
    | dequeue u d n => cases hk; exact separated_of_direct ho (.inl ⟨n, hc⟩)
    | switchToOffline u d => cases hk; exact separated_of_direct ho (.inr hc)
    | queueSize u d => cases hk
  | _ => cases hk

end Separation

variable (hops : ∀ o, .spawn o ∈ acts → conserving o)

include hops in
theorem not_removes_run : ∀ ev ∈ (serve cfg init acts).trace, ¬ ev.call.removes := by
  intro ev hev
  obtain ⟨t, ht, hc⟩ := Op.mayCall_of_mem_trace cfg hev
  have hspawned := hops _ ((voxServer cfg).op_spawned (List.mem_of_getElem? ht))
  exact not_removes_of_conserving hspawned hc

variable {p : Pair}

include hv hsep hops in
theorem orderly_run (hp : p ∈ arrivals cfg (serve cfg init acts).trace) :
    Always (Orderly cfg p) (serve cfg init acts).trace := by
  have hreg : ∀ o, .spawn o ∈ acts → regular o := fun o ho => regular_of_conserving (hops o ho)
  have hrem : ∀ ev ∈ (serve cfg init acts).trace, ¬ ev.call.removes := not_removes_run hops
  have hfan : ∀ i, Always (FanStep cfg) (localTrace i (serve cfg init acts).trace) :=
    fanStep_of_regular hv hreg
  have hu : kSep ∉ p.2.1.toList := by
    obtain ⟨ev, hev, ha⟩ := List.mem_filterMap.mp hp
    obtain ⟨tr₁, tr₂, htr⟩ := List.append_of_mem hev
    obtain ⟨-, ev', hev', hl⟩ := served_of_arrival hfan htr ha
    have hmem : ev' ∈ (serve cfg init acts).trace := by
      rw [htr]
      exact List.mem_append_left _ (mem_of_mem_localTrace hev').1
    exact separated_of_lists hv hsep hreg hmem hl
  refine always_of_forall fun tr₁ ev tr₂ htr => ?_
  have hev : ev ∈ (serve cfg init acts).trace := by simp [htr]
  refine ⟨hrem ev hev, fun k hk he => ?_, ?_, grounded_of_mem_arrivals hfan hrem htr⟩
  · obtain ⟨h₁, h₂⟩ := (deviceScopeKey_inj (separated_queue hv hsep hreg hev hk) hu).mp he
    exact Prod.ext h₁ h₂
  · have hsub : (tr₁ ++ [ev]).Sublist (serve cfg init acts).trace := by
      rw [htr]
      exact (List.sublist_append_left (tr₁ ++ [ev]) tr₂).trans (by simp)
    exact ((hsub.filterMap (arrival? cfg)).count_le p).trans 
      (count_arrivals_le_one hfan (tid_eq_of_not_removes hrem p.1))

include hv hsep hops in
theorem places_run (hq : ∀ k, init.queues k = [])
    (hp : p ∈ arrivals cfg (serve cfg init acts).trace) :
    Balanced cfg p (serve cfg init acts).trace (serve cfg init acts).state := by
  have hreg : ∀ o, .spawn o ∈ acts → regular o := fun o ho => regular_of_conserving (hops o ho)
  refine ((voxServer cfg).always_invariant (orderly_run hv hsep hops hp) ?_ ?_ ?_).1
  · have hrow := inRows_init_eq_zero (fanStep_of_regular hv hreg) (not_removes_run hops) hv hp
    simp [Balanced, arrivals, waiting, inQueue, hq, hrow, returned, purged]
  · exact fun tr s i c hc h => @Balanced.call cfg p tr ⟨i, c, s⟩ h hc
  · exact fun tr s e h => h

end Run

/-- Each pair that a completed send has fanned out is in one place: in the queue of its device,
among what was dequeued, a delivery state, or purged; and the send reports how many it queued. -/
theorem fan_out_conserved (cfg : ServerConfig) {init : Server} {acts : List Act}
    (hv : init.db.Valid) (hsep : Separated init) (hq : ∀ k, init.queues k = [])
    (hops : ∀ o, .spawn o ∈ acts → conserving o) {i : ℕ} {request : SendMessageRequest}
    {uuid : String} {response : SendMessageResponse}
    (hi : (serve cfg init acts).threads[i]? =
      some ⟨.sendEnvelope request uuid, .ret (.ok response)⟩) :
    (∀ p ∈ attempts (localTrace i (serve cfg init acts).trace), p.1 = response.envelopeId ∧
      inQueue p (serve cfg init acts).state + returned p (serve cfg init acts).trace +
        inRows p (serve cfg init acts).state.db + purged p (serve cfg init acts).trace = 1) ∧
    (attempts (localTrace i (serve cfg init acts).trace)).Nodup ∧
    response.deliveredToCount =
      (queuedPairs cfg (localTrace i (serve cfg init acts).trace)).length := by
  have hsent := sent_of_finished hv hi
  have hreg : ∀ o, .spawn o ∈ acts → regular o := fun o ho => regular_of_conserving (hops o ho)
  have hrem : ∀ ev ∈ (serve cfg init acts).trace, ¬ ev.call.removes := not_removes_run hops
  have hfan : ∀ i, Always (FanStep cfg) (localTrace i (serve cfg init acts).trace) :=
    fanStep_of_regular hv hreg
  refine ⟨fun p hp => ⟨hsent.ids p hp, ?_⟩, nodup_attempts (hfan i), hsent.count⟩
  have hone := count_arrivals_eq_one hfan (tid_eq_of_not_removes hrem p.1) hp hsent.idle
  have hbal := places_run hv hsep hops hq (List.count_pos_iff.mp (hone.symm ▸ Nat.one_pos))
  unfold Balanced waiting at hbal
  omega

def twoMembers : Server where
  db :=
    { users := [{ (default : UserRecord) with userId := "a", username := "a" },
        { (default : UserRecord) with userId := "b", username := "b" }]
      devices := [{ (default : DeviceRecord) with deviceId := "d", userId := "a" },
        { (default : DeviceRecord) with deviceId := "d", userId := "b" }]
      conversations := [⟨"c", .group, "a", 0, "", 0⟩]
      conversationMembers := [⟨"c", "a", .owner, 0, none⟩, ⟨"c", "b", .member, 0, none⟩] }

/-- An envelope is queued for the second member, whose device then switches to offline delivery,
and who is removed at last. -/
def sendThenRemove : List Act :=
  .spawn (.sendEnvelope ⟨"a", "d", "c", "x", "e", 0, none⟩ "") :: List.replicate 10 (.run 0) ++
  [.spawn (.single (.delivery (.switchToOffline "b" "d"))), .run 1] ++
  .spawn (.removeMember "c" "a" "b") :: List.replicate 7 (.run 2)

theorem sendThenRemove_conserved :
    inQueue ("e", "b", "d") (serve default twoMembers sendThenRemove).state +
      returned ("e", "b", "d") (serve default twoMembers sendThenRemove).trace +
      inRows ("e", "b", "d") (serve default twoMembers sendThenRemove).state.db +
      purged ("e", "b", "d") (serve default twoMembers sendThenRemove).trace = 1 ∧
    (queuedPairs default (localTrace 0 (serve default twoMembers sendThenRemove).trace)).length =
      1 := by
  have hi : (serve default twoMembers sendThenRemove).threads[0]? =
      some ⟨.sendEnvelope ⟨"a", "d", "c", "x", "e", 0, none⟩ "", .ret (.ok ⟨"e", 0, 1⟩)⟩ := rfl
  have hops : ∀ o, .spawn o ∈ sendThenRemove → conserving o := by
    simp [sendThenRemove, List.replicate, conserving, kSep]
  obtain ⟨hp, -, hn⟩ :=
    fan_out_conserved default (by decide) (by decide) (fun _ => rfl) hops hi
  exact ⟨(hp _ (by decide)).2, hn.symm⟩

end VoxServer.Delivery
