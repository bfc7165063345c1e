import VoxServer.Server.System

/-! # One-time prekeys

A bundle takes an unconsumed prekey of the device and marks it consumed in one
transaction. The mark goes away only when the device is revoked or its user is
deleted, and then the device gives out no bundle any more.
-/

namespace VoxServer.Prekeys

open Table Interleaving DeviceRepository

section

variable (u : UserId) (d : DeviceId)

def bundle? (ev : Ev) : Option PrekeyBundle :=
  match ev.call with
  | .devices (.getPrekeyBundle u' d') =>
    if u' = u ∧ d' = d then (getPrekeyBundle u d ev.pre.clock ev.pre.db).1.toOption else none
  | _ => none

def handedOut (tr : List Ev) : List String :=
  (tr.filterMap (bundle? u d)).filterMap (·.oneTimePrekeyId)

/-- The row of the prekey is kept as consumed. -/
def Consumed (id : String) (db : Database) : Prop :=
  ∃ p ∈ db.oneTimePrekeys, p.prekeyId = id ∧ p.userId = u ∧ p.deviceId = d ∧ p.consumedAt ≠ none

end

variable {cfg : ServerConfig} {u : UserId} {d : DeviceId} {id : String} {i : ℕ} {c : Call}
  {s : Server} {b : PrekeyBundle}

theorem bundle?_eq_some : bundle? u d ⟨i, c, s⟩ = some b ↔
    c = .devices (.getPrekeyBundle u d) ∧ (getPrekeyBundle u d s.clock s.db).1 = .ok b := by
  unfold bundle?
  split
  · rename_i u' d' hc
    obtain rfl : c = _ := hc
    constructor
    · intro h
      split at h
      · rename_i he
        obtain ⟨rfl, rfl⟩ := he
        refine ⟨rfl, ?_⟩
        cases hb : (getPrekeyBundle u' d' s.clock s.db).1 with
        | ok b' =>
          rw [hb] at h
          exact congrArg _ (Option.some.inj h)
        | error e =>
          rw [hb] at h
          cases h
      · cases h
    · rintro ⟨hc, hb⟩
      cases hc
      rw [if_pos ⟨rfl, rfl⟩, hb]
      rfl
  · rename_i hno
    simp only [reduceCtorEq, false_iff]
    rintro ⟨hc, -⟩
    exact hno _ _ hc

theorem Consumed.effect {a : DeviceCall} {db db' : Database} (he : a.Effect db db')
    (h : Consumed u d id db) (hact : db'.ActiveDevice (u, d)) : Consumed u d id db' := by
  obtain ⟨p, hp, hid, hu, hd, hc⟩ := h
  cases he with
  | same => exact ⟨p, hp, hid, hu, hd, hc⟩
  | register r _ hins =>
    obtain ⟨-, -, rfl⟩ := insertDevice_ok hins
    exact ⟨p, hp, hid, hu, hd, hc⟩
  | touch => exact ⟨p, hp, hid, hu, hd, hc⟩
  | store u' d' pks now db₁ hins =>
    obtain ⟨rows, rfl, -⟩ := insertPrekeys_ok hins
    exact ⟨p, List.mem_append_left _ hp, hid, hu, hd, hc⟩
  | consume _ now row => exact ⟨p, mem_updateWhere.mpr ⟨p, hp, by simp [hc]⟩, hid, hu, hd, hc⟩
  | revoke u' d' now =>
    -- Revoking the device itself would leave it inactive.
    have hne : ¬ (u' = u ∧ d' = d) := by
      rintro ⟨rfl, rfl⟩
      obtain ⟨r, hr, hk, hn⟩ := hact
      obtain ⟨_, -, -, -, himp⟩ := mem_markRevoked hr
      exact (himp hn).2 hk
    refine ⟨p, mem_deleteWhere.mpr ⟨hp, ?_⟩, hid, hu, hd, hc⟩
    rintro hdel
    simp only [decide_eq_true_eq] at hdel
    exact hne ⟨hdel.1.symm.trans hu, hdel.2.symm.trans hd⟩

theorem Consumed.exec (h : Consumed u d id s.db)
    (hact : (c.exec cfg s).2.db.ActiveDevice (u, d)) : Consumed u d id (c.exec cfg s).2.db := by
  by_cases hdev : ∃ a, c = .devices a
  · obtain ⟨a, rfl⟩ := hdev
    exact h.effect (a.exec_effect s.clock s.db) hact
  · by_cases hadm : c.isAdmin
    · cases c with
      | admin a =>
        have hf := Call.exec_frame cfg (.admin a) s
        cases a with | deleteUserRows u' =>
        rcases hf with hf | hf
        · rwa [hf]
        · rw [hf] at hact ⊢
          obtain ⟨p, hp, hid, hu, hd, hc⟩ := h
          obtain ⟨r, hr, hk, -⟩ := hact
          refine ⟨p, mem_deleteWhere.mpr ⟨hp, fun hdel => ?_⟩, hid, hu, hd, hc⟩
          refine (mem_deleteWhere.mp hr).2 (decide_eq_true ?_)
          exact (congrArg Prod.fst hk).trans (hu.symm.trans (of_decide_eq_true hdel))
      | _ => cases hadm
    · unfold Consumed
      rwa [(Call.exec_devices cfg (not_exists.mp hdev) hadm).2]

/-- What was handed out stays consumed, or the device is not active any more. -/
structure Spent (u : UserId) (d : DeviceId) (tr : List Ev) (db : Database) : Prop where
  nodup : (handedOut u d tr).Nodup
  consumed : ∀ id ∈ handedOut u d tr, db.ActiveDevice (u, d) → Consumed u d id db

theorem handedOut_snoc (tr : List Ev) (ev : Ev) : handedOut u d (tr ++ [ev]) =
    handedOut u d tr ++ ((bundle? u d ev).bind (·.oneTimePrekeyId)).toList := by
  simp only [handedOut, List.filterMap_append]
  cases h : bundle? u d ev with
  | none => simp [h]
  | some b => cases hb : b.oneTimePrekeyId <;> simp [h, hb]

theorem Spent.step {tr : List Ev} (h : Spent u d tr s.db) (hv : s.db.Valid)
    (hreg : ¬ c.registersDevice (u, d)) (i : ℕ) :
    Spent u d (tr ++ [⟨i, c, s⟩]) (c.exec cfg s).2.db := by
  have hold : ∀ id ∈ handedOut u d tr, (c.exec cfg s).2.db.ActiveDevice (u, d) →
      Consumed u d id (c.exec cfg s).2.db := fun id hid hact =>
    (h.consumed id hid (Call.activeDevice_of_exec cfg hreg hact)).exec hact
  cases hb : (bundle? u d ⟨i, c, s⟩).bind (·.oneTimePrekeyId) with
  | none =>
    have hsnoc := handedOut_snoc (u := u) (d := d) tr ⟨i, c, s⟩
    rw [hb, Option.toList_none, List.append_nil] at hsnoc
    exact ⟨hsnoc ▸ h.nodup, hsnoc ▸ hold⟩
  | some id =>
    have hsnoc := handedOut_snoc (u := u) (d := d) tr ⟨i, c, s⟩
    rw [hb, Option.toList_some] at hsnoc
    obtain ⟨b, hbundle, hid⟩ := Option.bind_eq_some_iff.mp hb
    obtain ⟨rfl, hok⟩ := bundle?_eq_some.mp hbundle
    obtain ⟨hact, ⟨hnone, -⟩ | ⟨row, hrow, havail, hrowid, hpost⟩⟩ := getPrekeyBundle_ok hok
    · rw [hnone] at hid
      cases hid
    · obtain rfl : row.prekeyId = id := Option.some.inj (hrowid.symm.trans hid)
      obtain ⟨hu, hd, hfree⟩ := available_iff.mp havail
      constructor
      · rw [hsnoc]
        refine List.nodup_append_comm.mp (List.nodup_cons.mpr ⟨fun hin => ?_, h.nodup⟩)
        obtain ⟨p, hp, hpid, -, -, hc⟩ := h.consumed _ hin hact
        rw [hv.prekeys_pk.eq_of_mem hp hrow hpid] at hc
        exact hc hfree
      · intro id hin hact'
        rw [hsnoc] at hin
        rcases List.mem_append.mp hin with hin | hin
        · exact hold id hin hact'
        · rw [List.mem_singleton.mp hin]
          change Consumed u d row.prekeyId (getPrekeyBundle u d s.clock s.db).2
          rw [hpost]
          refine ⟨_, mem_updateWhere.mpr ⟨row, hrow, rfl⟩, ?_⟩
          rw [if_pos (by simp [hfree])]
          exact ⟨rfl, hu, hd, nofun⟩

theorem not_active_snoc {tr : List Ev} (hv : s.db.Valid) (hreg : ¬ c.registersDevice (u, d)) (i : ℕ)
    (h : (∃ e ∈ tr, e.call.revokesDevice u d e.pre) → ¬ s.db.ActiveDevice (u, d))
    (hrev : ∃ e ∈ tr ++ [⟨i, c, s⟩], e.call.revokesDevice u d e.pre) :
    ¬ (c.exec cfg s).2.db.ActiveDevice (u, d) := by
  obtain ⟨e, he, hrev⟩ := hrev
  rcases List.mem_append.mp he with he | he
  · exact fun hact => h ⟨e, he, hrev⟩ (Call.activeDevice_of_exec cfg hreg hact)
  · rw [List.mem_singleton.mp he] at hrev
    exact (Call.revokedDevice_of_revokes cfg hrev).not_active (c.exec_valid cfg hv)

/-- One-time prekeys are handed out at most once: no two bundles of a device have the same one, a
bundle has none only if no unconsumed one is there, and a revoked device gives out no bundle. -/
theorem prekeys_handed_out_once (cfg : ServerConfig) (init : Server) (acts : List Act) (u : UserId)
    (d : DeviceId) (hv : init.db.Valid)
    (hreg : ∀ ev ∈ (serve cfg init acts).trace, ¬ ev.call.registersDevice (u, d)) :
    (handedOut u d (serve cfg init acts).trace).Nodup ∧
    (∀ ev ∈ (serve cfg init acts).trace, ∀ b ∈ bundle? u d ev, b.oneTimePrekeyId = none →
      ∀ p ∈ ev.pre.db.oneTimePrekeys, p.userId = u → p.deviceId = d → p.consumedAt ≠ none) ∧
    Always (fun tr ev => (∃ e ∈ tr, e.call.revokesDevice u d e.pre) → bundle? u d ev = none)
      (serve cfg init acts).trace := by
  obtain ⟨⟨-, hspent, -⟩, halways⟩ := (voxServer cfg).always_invariant (always_of_mem hreg)
    (I := fun tr s => s.db.Valid ∧ Spent u d tr s.db ∧
      ((∃ e ∈ tr, e.call.revokesDevice u d e.pre) → ¬ s.db.ActiveDevice (u, d)))
    ⟨hv, ⟨List.nodup_nil, by simp [handedOut]⟩, by simp⟩
    (fun tr s i c hreg ⟨hvs, hsp, hrev⟩ => ⟨c.exec_valid cfg hvs, hsp.step hvs hreg i,
      not_active_snoc hvs hreg i hrev⟩) (fun _ _ _ h => h)
  refine ⟨hspent.nodup, fun ev _ b hb hnone p hp hu hd hc => ?_,
    halways.imp fun tr ev hI hrev => ?_⟩
  · obtain ⟨-, hok⟩ := bundle?_eq_some.mp hb
    rcases (getPrekeyBundle_ok hok).2 with ⟨-, hall, -⟩ | ⟨row, -, -, hrow, -⟩
    · exact hall p hp (available_iff.mpr ⟨hu, hd, hc⟩)
    · rw [hnone] at hrow
      cases hrow
  · cases hb : bundle? u d ev with
    | none => rfl
    | some b =>
      obtain ⟨-, hok⟩ := bundle?_eq_some.mp hb
      exact absurd (getPrekeyBundle_ok hok).1 (hI.2.2 hrev)

/-- Two prekeys are stored and three bundles fetched; then the device is revoked. -/
def storeFetchRevoke : List Act :=
  [.spawn (.single (.devices (.storePrekeys "u" "d" [⟨"k1", "d", "x1", none⟩,
      ⟨"k2", "d", "x2", none⟩]))),
   .spawn (.single (.devices (.getPrekeyBundle "u" "d"))),
   .spawn (.single (.devices (.getPrekeyBundle "u" "d"))),
   .spawn (.single (.devices (.getPrekeyBundle "u" "d"))),
   .spawn (.single (.devices (.revokeDevice "u" "d" 5))),
   .run 0, .run 2, .run 1, .run 3, .run 4]

theorem storeFetchRevoke_once :
    handedOut "u" "d" (serve default oneDevice storeFetchRevoke).trace = ["k1", "k2"] ∧
    (handedOut "u" "d" (serve default oneDevice storeFetchRevoke).trace).Nodup :=
  ⟨by decide, (prekeys_handed_out_once default oneDevice storeFetchRevoke "u" "d" (by decide)
    (by decide)).1⟩

end VoxServer.Prekeys
