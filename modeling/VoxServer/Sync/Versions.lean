import VoxServer.Server.System

/-! # Versions of sync records

For one record, the table refines an append-only log of the writes that
succeeded: each write builds on the number of writes before it, and the row
holds the last one. A failed call changes nothing.
-/

namespace VoxServer

open Table Interleaving

variable {k : UserId × String × String} {ws : List RecordWrite} {db db' : Database}

def rowsOf (k : UserId × String × String) (db : Database) : List SyncRow :=
  db.syncRecords.filter (·.key = k)

/-- The database holds the outcome of the log of writes to the record. -/
structure RecordLog (k : UserId × String × String) (ws : List RecordWrite) (db : Database) :
    Prop where
  based : ∀ i w, ws[i]? = some w → w.baseVersion = Int32.ofNat i
  last : ∀ w, ws.getLast? = some w → ∃ row, rowsOf k db = [row] ∧ w.applyTo row = row
  empty : ws = [] → rowsOf k db = []

theorem rowsOf_updateWhere {w : RecordWrite} :
    rowsOf k { db with syncRecords := updateWhere (·.key = w.key) w.applyTo db.syncRecords } =
      updateWhere (·.key = w.key) w.applyTo (rowsOf k db) :=
  filter_updateWhere fun _ => rfl

theorem RecordLog.of_ne {w : RecordWrite} (h : RecordLog k ws db) (hc : Committed w db db')
    (hne : w.key ≠ k) : RecordLog k ws db' := by
  have hrows : rowsOf k db' = rowsOf k db := by
    cases hc with
    | update row hm hkey hver =>
      rw [rowsOf_updateWhere]
      apply updateWhere_eq_self
      intro r hr
      have hr : r.key = k := by simpa using (List.mem_filter.mp hr).2
      simpa [hr] using hne.symm
    | insert hnew hver hid huser => simp [rowsOf, hne]
  exact ⟨h.based, hrows ▸ h.last, hrows ▸ h.empty⟩

/-- A row of the record is its only one, with as many writes behind it as its version says. -/
theorem RecordLog.of_mem {row : SyncRow} (h : RecordLog k ws db) (hm : row ∈ db.syncRecords)
    (hk : row.key = k) : rowsOf k db = [row] ∧ row.version = Int32.ofNat ws.length := by
  have hmem : row ∈ rowsOf k db := List.mem_filter.mpr ⟨hm, by simpa using hk⟩
  rcases List.eq_nil_or_concat ws with rfl | ⟨ws', w, rfl⟩
  · rw [h.empty rfl] at hmem
    cases hmem
  · obtain ⟨row', hrow, happ⟩ := h.last w (by simp)
    rw [hrow, List.mem_singleton] at hmem
    subst hmem
    refine ⟨hrow, ?_⟩
    have hver : row.version = w.baseVersion + 1 := congrArg SyncRow.version happ.symm
    rw [hver, h.based ws'.length w (by simp), List.concat_eq_append, List.length_append]
    exact (Int32.ofNat_add _ _).symm

theorem RecordLog.of_forall_ne (h : RecordLog k ws db) (hnew : ∀ r ∈ db.syncRecords, r.key ≠ k) :
    ws = [] ∧ rowsOf k db = [] := by
  have hnil : rowsOf k db = [] := by
    rw [rowsOf, List.filter_eq_nil_iff]
    intro r hr
    simpa using hnew r hr
  rcases List.eq_nil_or_concat ws with rfl | ⟨ws', w, rfl⟩
  · exact ⟨rfl, hnil⟩
  · obtain ⟨row, hrow, -⟩ := h.last w (by simp)
    rw [hnil] at hrow
    cases hrow

theorem RecordLog.commit {w : RecordWrite} (h : RecordLog w.key ws db)
    (hc : Committed w db db') : RecordLog w.key (ws ++ [w]) db' := by
  have hbase : w.baseVersion = Int32.ofNat ws.length := by
    cases hc with
    | update row hm hkey hver => rw [← hver, (h.of_mem hm hkey).2]
    | insert hnew hver hid huser => rw [hver, (h.of_forall_ne hnew).1]; rfl
  refine ⟨?_, ?_, by simp⟩
  · intro i w' hi
    rcases Nat.lt_or_ge i ws.length with hlt | hge
    · exact h.based i w' (by rwa [List.getElem?_append_left hlt] at hi)
    · rw [List.getElem?_append_right hge] at hi
      obtain ⟨h0, rfl⟩ : i - ws.length = 0 ∧ w = w' := by
        simpa [List.getElem?_singleton] using hi
      rw [hbase]
      congr 1
      omega
  · intro w' hw'
    obtain rfl : w = w' := by simpa using hw'
    cases hc with
    | update row hm hkey hver =>
      refine ⟨w.applyTo row, ?_, rfl⟩
      rw [rowsOf_updateWhere, (h.of_mem hm hkey).1]
      simp [updateWhere, hkey]
    | insert hnew hver hid huser =>
      refine ⟨w.newRow (db.syncSequence + 1), ?_, rfl⟩
      have hnil := (h.of_forall_ne hnew).2
      simp only [rowsOf] at hnil
      simp [rowsOf, hnil]

def writeOf (ev : Ev) : Option RecordWrite :=
  match ev.call with
  | .syncState c => c.write?
  | _ => none

def resultOf (ev : Ev) : Option SyncPutResult :=
  match ev.call with
  | .syncState c => c.commit? ev.pre.db
  | _ => none

/-- The write that a call of the trace committed to the record, with the result it returned. -/
def commitOf (k : UserId × String × String) (ev : Ev) : Option (RecordWrite × SyncPutResult) :=
  match writeOf ev, resultOf ev with
  | some w, some r => if w.key = k then some (w, r) else none
  | _, _ => none

/-- The successful writes to a record in commit order. -/
def commits (k : UserId × String × String) (tr : List Ev) : List (RecordWrite × SyncPutResult) :=
  tr.filterMap (commitOf k)

theorem exec_sync_cases (cfg : ServerConfig) (i : ℕ) (c : Call) (s : Server) :
    (resultOf ⟨i, c, s⟩ = none ∧ (c.exec cfg s).2.db.syncRecords = s.db.syncRecords ∧
      (c.exec cfg s).2.db.syncSequence = s.db.syncSequence) ∨
    ∃ w, writeOf ⟨i, c, s⟩ = some w ∧ resultOf ⟨i, c, s⟩ = some w.result ∧
      Committed w s.db (c.exec cfg s).2.db := by
  by_cases hc : ∃ a, c = .syncState a
  · obtain ⟨a, rfl⟩ := hc
    rcases a.exec_cases s.db with ⟨hn, he⟩ | ⟨w, hw, hr, hcom⟩
    · exact .inl ⟨hn, congrArg Database.syncRecords he, congrArg Database.syncSequence he⟩
    · exact .inr ⟨w, hw, hr, hcom⟩
  · have hne : ∀ a, c ≠ .syncState a := fun a ha => hc ⟨a, ha⟩
    refine .inl ⟨?_, Call.exec_syncRecords cfg hne⟩
    cases c with
    | syncState a => exact absurd rfl (hne a)
    | _ => rfl

/-- Every call keeps the log of a record or extends it by the write it commits. -/
theorem RecordLog.step (cfg : ServerConfig) {s : Server} (h : RecordLog k ws s.db) (i : ℕ)
    (c : Call) :
    (commitOf k ⟨i, c, s⟩ = none ∧ RecordLog k ws (c.exec cfg s).2.db) ∨
    ∃ w, commitOf k ⟨i, c, s⟩ = some (w, w.result) ∧
      RecordLog k (ws ++ [w]) (c.exec cfg s).2.db := by
  rcases exec_sync_cases cfg i c s with ⟨hn, hrec, -⟩ | ⟨w, hw, hr, hcom⟩
  · have hrows : rowsOf k (c.exec cfg s).2.db = rowsOf k s.db := by rw [rowsOf, hrec, rowsOf]
    refine .inl ⟨?_, h.based, hrows ▸ h.last, hrows ▸ h.empty⟩
    rw [commitOf, hn]
    split <;> simp_all
  · simp only [commitOf, hw, hr]
    by_cases hk : w.key = k
    · subst hk
      exact .inr ⟨w, by simp, h.commit hcom⟩
    · exact .inl ⟨by simp [hk], h.of_ne hcom hk⟩

/-- In every run the table holds the log of the writes that the run committed. -/
theorem recordLog_serve (cfg : ServerConfig) {init : Server} (acts : List Act)
    (hk : ∀ r ∈ init.db.syncRecords, r.key ≠ k) :
    RecordLog k ((commits k (serve cfg init acts).trace).map Prod.fst)
      (serve cfg init acts).state.db ∧
    ∀ p ∈ commits k (serve cfg init acts).trace, p.2 = p.1.result := by
  refine (voxServer cfg).trace_invariant (P := fun _ => True)
    (I := fun tr s => RecordLog k ((commits k tr).map Prod.fst) s.db ∧
      ∀ p ∈ commits k tr, p.2 = p.1.result) ?_ ?_ ?_ acts (fun o _ => (o.code cfg).only_true)
  · refine ⟨⟨by simp [commits], by simp [commits], fun _ => ?_⟩, by simp [commits]⟩
    rw [rowsOf, List.filter_eq_nil_iff]
    intro r hr
    simpa using hk r hr
  · rintro tr s i c - ⟨hlog, hres⟩
    have happ : commits k (tr ++ [⟨i, c, s⟩]) =
        commits k tr ++ (commitOf k ⟨i, c, s⟩).toList := by
      rw [commits, List.filterMap_append]
      cases h : commitOf k ⟨i, c, s⟩ <;> simp [commits, h]
    rw [happ]
    rcases hlog.step cfg i c with ⟨hn, hlog'⟩ | ⟨w, hw, hlog'⟩
    · rw [hn, Option.toList_none, List.append_nil]
      exact ⟨hlog', hres⟩
    · rw [hw, Option.toList_some, List.map_append]
      refine ⟨hlog', fun p hp => ?_⟩
      rcases List.mem_append.mp hp with hp | hp
      · exact hres p hp
      · rw [List.mem_singleton.mp hp]
  · exact fun _ _ _ h => h

/-- Optimistic locking admits no lost update: the successful writes to a record return the
versions 1, 2, 3, ..., each on top of the one before it, the row holds the last of them, and a
failed call changes no sync record. -/
theorem sync_no_lost_update (cfg : ServerConfig) (init : Server) (acts : List Act)
    (k : UserId × String × String) (hk : ∀ r ∈ init.db.syncRecords, r.key ≠ k)
    (hlt : (commits k (serve cfg init acts).trace).length < 2 ^ 31 - 1) :
    (∀ (i : ℕ) w r, (commits k (serve cfg init acts).trace)[i]? = some (w, r) →
      w.baseVersion.toInt = i ∧ r.version.toInt = i + 1) ∧
    (∀ w r, (commits k (serve cfg init acts).trace).getLast? = some (w, r) →
      ∃ row, rowsOf k (serve cfg init acts).state.db = [row] ∧ row.ciphertext = w.ciphertext ∧
        row.contentHash = w.contentHash ∧ row.deleted = w.deleted ∧ row.version = r.version) ∧
    (commits k (serve cfg init acts).trace = [] →
      rowsOf k (serve cfg init acts).state.db = []) ∧
    ∀ ev ∈ (serve cfg init acts).trace, resultOf ev = none →
      ((voxServer cfg).post ev).db.syncRecords = ev.pre.db.syncRecords := by
  obtain ⟨hlog, hres⟩ := recordLog_serve cfg acts hk
  refine ⟨?_, ?_, fun hnil => hlog.empty (by rw [hnil]; rfl), ?_⟩
  · intro i w r hi
    obtain ⟨hlen, -⟩ := List.getElem?_eq_some_iff.mp hi
    have hb := hlog.based i w (by rw [List.getElem?_map, hi]; rfl)
    obtain rfl : r = w.result := hres _ (List.mem_of_getElem? hi)
    have hsucc : w.result.version = Int32.ofNat (i + 1) := by
      rw [RecordWrite.result, hb, Int32.ofNat_add]
      rfl
    rw [hb, hsucc, Int32.toInt_ofNat_of_lt (by omega), Int32.toInt_ofNat_of_lt (by omega)]
    exact ⟨rfl, by simp⟩
  · intro w r hl
    obtain ⟨row, hrow, happ⟩ := hlog.last w (by rw [List.getLast?_map, hl]; rfl)
    obtain rfl : r = w.result := hres _ (List.mem_of_getLast? hl)
    refine ⟨row, hrow, ?_⟩
    rw [← happ]
    exact ⟨rfl, rfl, rfl, rfl⟩
  · rintro ⟨i, c, s⟩ - hn
    rcases exec_sync_cases cfg i c s with ⟨-, hrec, -⟩ | ⟨w, -, hr, -⟩
    · exact hrec
    · rw [hn] at hr
      cases hr

def oneUser : Server := { db := { users := [{ (default : UserRecord) with userId := "u" }] } }

/-- Two devices write the same record; the one that comes second has to build on the first. -/
def competingWrites : List Act :=
  [.spawn (.single (.syncState (.upsertRecord "u" "notes" "r" "c1" "h1" 0 0 5))),
   .spawn (.single (.syncState (.upsertRecord "u" "notes" "r" "c2" "h2" 0 0 5))),
   .run 1, .run 0,
   .spawn (.single (.syncState (.tombstoneRecord "u" "notes" "r" 1 0 6))), .run 2]

theorem competingWrites_no_lost_update :
    (commits ("u", "notes", "r") (serve default oneUser competingWrites).trace).map
      (·.2.version) = [1, 2] ∧
    ∃ row, rowsOf ("u", "notes", "r") (serve default oneUser competingWrites).state.db = [row] ∧
      row.ciphertext = "" ∧ row.contentHash = "" ∧ row.deleted = true ∧ row.version = 2 :=
  ⟨by decide, (sync_no_lost_update default oneUser competingWrites ("u", "notes", "r")
    (by decide) (by decide)).2.1 ⟨("u", "notes", "r"), 1, "", "", true, 6⟩ ⟨"r", 2, 6, true⟩
    (by decide)⟩

end VoxServer
