import VoxServer.Server.System

/-! # The life of a session in a run

An active session was there at the start or was created by a call of the run, and
no call has revoked it since.
-/

namespace VoxServer.Sessions

open Table Interleaving SessionRepository

def created? (ev : Ev) : Option SessionRecord :=
  match ev.call with
  | .sessions (.createSession s) =>
    if (createSession s ev.pre.db).1 = .ok () then some { s with revokedAt := none } else none
  | _ => none

def revokes (r : SessionRecord) (ev : Ev) : Bool :=
  match ev.call with
  | .sessions c => c.revokes r
  | _ => false

def issued (init : Server) (tr : List Ev) : List SessionRecord :=
  init.db.sessions ++ tr.filterMap created?

/-- The session was there at the start or created, and no call has revoked it since. -/
def Live (init : Server) (tr : List Ev) (r : SessionRecord) : Prop :=
  (r ∈ init.db.sessions ∧ ∀ ev ∈ tr, ¬ revokes r ev) ∨
    Since (fun ev => created? ev = some r) (fun ev => revokes r ev) tr

variable (cfg : ServerConfig) {init s : Server} {tr : List Ev} {i : ℕ} {c : Call}
  {r : SessionRecord}

theorem mem_sessions_of_mem_exec (hc : ∀ a, c ≠ .sessions a)
    (h : r ∈ (c.exec cfg s).2.db.sessions) : r ∈ s.db.sessions := by
  have hf := Call.exec_frame cfg c s
  cases c with
  | sessions a => exact absurd rfl (hc a)
  | admin a =>
    cases a
    simp only [Call.Frame, AdminService.withoutUser] at hf
    rcases hf with hf | hf <;> rw [hf] at h
    · exact h
    · exact (mem_deleteWhere.mp h).1
  | _ => simp only [Call.Frame] at hf; grind

theorem mem_exec_active (ha : r.Active) (h : r ∈ (c.exec cfg s).2.db.sessions) :
    (r ∈ s.db.sessions ∧ ¬ revokes r ⟨i, c, s⟩) ∨ created? ⟨i, c, s⟩ = some r := by
  cases c with
  | sessions a =>
    have he := a.exec_effect s.db
    simp only [Call.exec, Call.onDb] at h
    cases hdb : a.exec s.db with | mk reply db' =>
    rw [hdb] at h he
    cases he with
    | same _ hno => exact .inl ⟨h, hno r⟩
    | create n _ hins =>
      obtain ⟨-, -, -, -, -, rfl⟩ := insertSession_ok hins
      rcases List.mem_append.mp h with h | h
      · exact .inl ⟨h, by simp [revokes, SessionCall.revokes]⟩
      · rw [List.mem_singleton.mp h]
        exact .inr (by simp only [created?, createSession, hins, if_true])
    | revoke _ now => exact .inl ((mem_revokeWhere_active ha).mp h)
    | clean now => exact .inl ⟨(mem_deleteWhere.mp h).1, by simp [revokes, SessionCall.revokes]⟩
  | _ => exact .inl ⟨mem_sessions_of_mem_exec cfg (by simp) h, by simp [revokes]⟩

theorem Live.mem_issued (h : Live init tr r) : r ∈ issued init tr := by
  rcases h with ⟨h, -⟩ | ⟨tr₁, ev, tr₂, rfl, hc, -⟩
  · exact List.mem_append_left _ h
  · exact List.mem_append_right _ (List.mem_filterMap.mpr ⟨ev, by simp, hc⟩)

theorem issued_append_created {tr' : List Ev} {ev : Ev} (h : created? ev = some r) :
    issued init (tr ++ ev :: tr') = issued init tr ++ r :: tr'.filterMap created? := by
  simp [issued, List.filterMap_append, h]

theorem live_snoc {ev : Ev} : Live init (tr ++ [ev]) r ↔
    created? ev = some r ∨ (Live init tr r ∧ ¬ revokes r ev) := by
  simp only [Live, since_snoc, List.mem_append, List.mem_singleton, or_imp, forall_and, forall_eq]
  tauto

/-- In every run, and before every call of it, the active sessions are live. -/
theorem live_of_active (init : Server) (acts : List Act) :
    (∀ r ∈ (serve cfg init acts).state.db.sessions, r.Active →
      Live init (serve cfg init acts).trace r) ∧
    Always (fun tr ev => ∀ r ∈ ev.pre.db.sessions, r.Active → Live init tr r)
      (serve cfg init acts).trace := by
  refine (voxServer cfg).always_invariant (Q := fun _ _ => True)
    (I := fun tr s => ∀ r ∈ s.db.sessions, r.Active → Live init tr r)
    (always_of_mem fun _ _ => trivial) (fun r hr _ => .inl ⟨hr, by simp⟩) ?_ (fun _ _ _ h => h)
  intro tr s i c _ ih r hr ha
  rcases mem_exec_active cfg ha hr with ⟨hold, hno⟩ | hnew
  · exact live_snoc.mpr (.inr ⟨ih r hold ha, hno⟩)
  · exact live_snoc.mpr (.inl hnew)

theorem mem_issued_of_active {acts : List Act} {ev : Ev}
    (hev : ev ∈ (serve cfg init acts).trace) (hr : r ∈ ev.pre.db.sessions) (ha : r.Active) :
    r ∈ issued init (serve cfg init acts).trace := by
  have hlive := (live_of_active cfg init acts).2
  obtain ⟨tr₁, tr₂, htr⟩ := List.append_of_mem hev
  rw [htr] at hlive ⊢
  have hin := (hlive.at r hr ha).mem_issued
  simp only [issued, List.filterMap_append, List.mem_append] at hin ⊢
  tauto

end VoxServer.Sessions
