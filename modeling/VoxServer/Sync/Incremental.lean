import VoxServer.Sync.Versions

/-! # Incremental sync of a collection

A client lists the changes of a collection page by page and always resumes from
the cursor of its last page. What it has seen up to its cursor is current as
long as every write to an existing record lands after the cursor: an update
keeps the row id, so a write behind the cursor is never listed again.
-/

namespace VoxServer.Incremental

open Table Interleaving SyncStateRepository

section Client

variable (u : UserId) (coll : String) (client : ℕ → Bool)

def listing? (ev : Ev) : Option (String × UInt64) :=
  match ev.call with
  | .syncState (.listChangesAfterCursor u' coll' cursor limit) =>
    if u' = u ∧ coll' = coll ∧ client ev.tid then some (cursor, limit) else none
  | _ => none

def page? (ev : Ev) : Option SyncChangesPage :=
  (listing? u coll client ev).map fun p => listChangesAfterCursor u coll p.1 p.2 ev.pre.db

/-- The cursor that the client resumes from: that of its last page, at first the empty one. -/
def clientCursor (tr : List Ev) : String :=
  match (tr.filterMap (page? u coll client)).getLast? with
  | some page => page.nextCursor
  | none => ""

/-- The rows that the client has been sent, in order. -/
def seen (tr : List Ev) : List SyncRecordRow :=
  (tr.filterMap (page? u coll client)).flatMap (·.changes)

def lastSeen (tr : List Ev) (recordId : String) : Option SyncRecordRow :=
  ((seen u coll client tr).filter (·.recordId = recordId)).getLast?

/-- The protocol of the client: each page resumes from the one before and asks for a row or more. -/
def Resumes (tr : List Ev) (ev : Ev) : Prop :=
  ∀ p ∈ listing? u coll client ev, p.1 = clientCursor u coll client tr ∧ 1 ≤ p.2.toNat

def position (tr : List Ev) : ℤ := (parseCursorId (clientCursor u coll client tr)).getD 0

/-- A write that finds its record at the expected version finds it after the client's cursor, and
no page asks for 2^64 - 1 rows. -/
def WritesAhead (tr : List Ev) (ev : Ev) : Prop :=
  (∀ p ∈ listing? u coll client ev, p.2 ≠ UInt64.ofNat (2 ^ 64 - 1)) ∧
  ∀ w ∈ writeOf ev, w.key.1 = u → w.key.2.1 = coll →
    ∀ row ∈ ev.pre.db.syncRecords, row.key = w.key → row.version = w.baseVersion →
      position u coll client tr < row.id

def writes (ev : Ev) : Bool :=
  ((writeOf ev).any fun w => w.key.1 = u ∧ w.key.2.1 = coll) && (resultOf ev).isSome

/-- The client got a page without more to come, and no record was written since. -/
def CaughtUp (tr : List Ev) : Prop :=
  Since (fun ev => ∃ page ∈ page? u coll client ev, page.hasMore = false)
    (fun ev => writes u coll ev) tr

instance (tr : List Ev) (ev : Ev) : Decidable (Resumes u coll client tr ev) :=
  inferInstanceAs (Decidable (∀ p ∈ listing? u coll client ev, _))

instance (tr : List Ev) (ev : Ev) : Decidable (WritesAhead u coll client tr ev) :=
  inferInstanceAs (Decidable ((∀ p ∈ listing? u coll client ev, _) ∧ ∀ w ∈ writeOf ev, _))

instance (tr : List Ev) : Decidable (CaughtUp u coll client tr) :=
  inferInstanceAs (Decidable (Since _ _ tr))

variable {u coll client}

theorem page?_eq_none {ev : Ev} (h : listing? u coll client ev = none) :
    page? u coll client ev = none := by
  rw [page?, h]; rfl

theorem client_of_none (tr : List Ev) {ev : Ev} (h : page? u coll client ev = none) :
    clientCursor u coll client (tr ++ [ev]) = clientCursor u coll client tr ∧
    ∀ i, lastSeen u coll client (tr ++ [ev]) i = lastSeen u coll client tr i := by
  have hf : (tr ++ [ev]).filterMap (page? u coll client) = tr.filterMap (page? u coll client) := by
    simp [h]
  refine ⟨by rw [clientCursor, hf, clientCursor], fun i => ?_⟩
  rw [lastSeen, seen, hf, lastSeen, seen]

theorem client_of_page (tr : List Ev) {ev : Ev} {page : SyncChangesPage}
    (h : page? u coll client ev = some page) :
    clientCursor u coll client (tr ++ [ev]) = page.nextCursor ∧
    seen u coll client (tr ++ [ev]) = seen u coll client tr ++ page.changes := by
  have hf : (tr ++ [ev]).filterMap (page? u coll client) =
      tr.filterMap (page? u coll client) ++ [page] := by
    simp [h]
  constructor
  · rw [clientCursor, hf, List.getLast?_concat]
  · rw [seen, hf, List.flatMap_append]
    simp [seen]

/-- Up to its position the client has seen the current row of every record. -/
structure UpToDate (u : UserId) (coll : String) (client : ℕ → Bool) (tr : List Ev)
    (db : Database) (p : ℤ) : Prop where
  parses : parseCursorId (clientCursor u coll client tr) = some p
  le_sequence : p ≤ db.syncSequence
  current : ∀ r ∈ collectionRows u coll db, r.id ≤ p →
    lastSeen u coll client tr r.recordId = some r.toRecordRow

variable {tr : List Ev} {db db' : Database} {p : ℤ}

theorem UpToDate.position_eq (h : UpToDate u coll client tr db p) :
    position u coll client tr = p := by
  rw [position, h.parses]; rfl

theorem eq_of_recordId (hv : db.Valid) {r r' : SyncRow} (hr : r ∈ collectionRows u coll db)
    (hr' : r' ∈ collectionRows u coll db) (h : r.recordId = r'.recordId) : r = r' := by
  obtain ⟨hm, hu, hc⟩ := mem_collectionRows.mp hr
  obtain ⟨hm', hu', hc'⟩ := mem_collectionRows.mp hr'
  apply hv.sync_key.eq_of_mem hm hm'
  simp only [SyncRow.key, hu, hc, hu', hc', h]

theorem UpToDate.commit {w : RecordWrite} (h : UpToDate u coll client tr db p) (hv : db.Valid)
    (hc : Committed w db db')
    (hahead : w.key.1 = u → w.key.2.1 = coll → ∀ row ∈ db.syncRecords, row.key = w.key →
      row.version = w.baseVersion → p < row.id) :
    UpToDate u coll client tr db' p := by
  cases hc with
  | update row hm hkey hver =>
    refine ⟨h.parses, h.le_sequence, ?_⟩
    intro r hr hle
    obtain ⟨hmem, hu, hcoll⟩ := mem_collectionRows.mp hr
    obtain ⟨r₀, hr₀, rfl⟩ := mem_updateWhere.mp hmem
    split at hle
    · -- the updated row itself lies after the position
      rename_i hk
      simp only [decide_eq_true_eq] at hk
      rw [if_pos (by simpa using hk)] at hu hcoll
      obtain rfl : r₀ = row := hv.sync_key.eq_of_mem hr₀ hm (hk.trans hkey.symm)
      have hlt := hahead (hkey ▸ hu) (hkey ▸ hcoll) r₀ hm hkey hver
      simp only [RecordWrite.applyTo_id] at hle
      omega
    · rename_i hk
      rw [if_neg hk] at hu hcoll ⊢
      exact h.current r₀ (mem_collectionRows.mpr ⟨hr₀, hu, hcoll⟩) hle
  | insert hnew hver hid huser =>
    refine ⟨h.parses, h.le_sequence.trans (Int.le_add_one le_rfl), ?_⟩
    intro r hr hle
    obtain ⟨hmem, hu, hcoll⟩ := mem_collectionRows.mp hr
    rcases List.mem_append.mp hmem with hmem | hmem
    · exact h.current r (mem_collectionRows.mpr ⟨hmem, hu, hcoll⟩) hle
    · -- a new row gets an id after all others
      rw [List.mem_singleton.mp hmem, RecordWrite.newRow_id] at hle
      have := h.le_sequence
      omega

theorem UpToDate.congr (h : UpToDate u coll client tr db p)
    (hrec : db'.syncRecords = db.syncRecords) (hseq : db'.syncSequence = db.syncSequence) :
    UpToDate u coll client tr db' p := by
  have hrows : collectionRows u coll db' = collectionRows u coll db := by
    rw [collectionRows, hrec, collectionRows]
  exact ⟨h.parses, hseq ▸ h.le_sequence, hrows ▸ h.current⟩

theorem UpToDate.page {i : ℕ} {c : Call} {s : Server} {limit : UInt64}
    (h : UpToDate u coll client tr s.db p) (hv : s.db.Valid)
    (hl : listing? u coll client ⟨i, c, s⟩ = some (clientCursor u coll client tr, limit)) :
    ∃ p', UpToDate u coll client (tr ++ [⟨i, c, s⟩]) s.db p' ∧ p ≤ p' ∧
      (limit ≠ UInt64.ofNat (2 ^ 64 - 1) → ∀ page, page? u coll client ⟨i, c, s⟩ = some page →
        page.hasMore = false → ∀ r ∈ collectionRows u coll s.db, r.id ≤ p') := by
  have hpage : page? u coll client ⟨i, c, s⟩ = some
      (listChangesAfterCursor u coll (clientCursor u coll client tr) limit s.db) := by
    rw [page?, hl]; rfl
  obtain ⟨hcur, hseen⟩ := client_of_page tr hpage
  obtain ⟨p', hp', hle, hmem⟩ := nextCursor_spec u coll limit hv h.parses
  refine ⟨p', ⟨by rw [hcur, hp'], ?_, ?_⟩, by omega, ?_⟩
  · have := h.le_sequence
    omega
  · intro r hr hrp
    rw [lastSeen, hseen, changes_eq h.parses, List.filter_append, List.getLast?_append]
    by_cases hold : r.id ≤ p
    · -- seen before; its record id is not in the new page
      have hnil : ((pageRows u coll p limit s.db).map SyncRow.toRecordRow).filter
          (·.recordId = r.recordId) = [] := by
        rw [List.filter_eq_nil_iff]
        intro x hx
        obtain ⟨r', hr', rfl⟩ := List.mem_map.mp hx
        obtain ⟨hrows, hlt⟩ := mem_of_mem_pageRows hr'
        simp only [decide_eq_true_eq]
        intro he
        obtain rfl := eq_of_recordId hv hrows hr he
        omega
      rw [hnil]
      exact h.current r hr hold
    · have hin : r ∈ pageRows u coll p limit s.db := (hmem r hr).mpr ⟨by omega, hrp⟩
      rw [getLast?_filter_eq (List.mem_map_of_mem hin) (by simp [SyncRow.toRecordRow])]
      · rfl
      · intro x hx hq
        obtain ⟨r', hr', rfl⟩ := List.mem_map.mp hx
        simp only [decide_eq_true_eq] at hq
        rw [eq_of_recordId hv (mem_of_mem_pageRows hr').1 hr hq]
  · intro hlim page hpg hdone r hr
    obtain rfl := Option.some.inj (hpage.symm.trans hpg)
    by_cases hold : r.id ≤ p
    · omega
    · exact ((hmem r hr).mp (mem_pageRows_of_not_hasMore hlim h.parses hdone hr (by omega))).2

theorem mem_of_committed {w : RecordWrite} {r : SyncRow} (hc : Committed w db db')
    (hout : ¬ (w.key.1 = u ∧ w.key.2.1 = coll)) (hr : r ∈ collectionRows u coll db') :
    r ∈ collectionRows u coll db := by
  obtain ⟨hmem, hu, hcoll⟩ := mem_collectionRows.mp hr
  cases hc with
  | update row hm hkey hver =>
    obtain ⟨r₀, hr₀, rfl⟩ := mem_updateWhere.mp hmem
    split at hu
    · rename_i hk
      rw [if_pos hk] at hcoll
      simp only [decide_eq_true_eq] at hk
      exact absurd ⟨hk ▸ hu, hk ▸ hcoll⟩ hout
    · rename_i hk
      rw [if_neg hk] at hcoll ⊢
      exact mem_collectionRows.mpr ⟨hr₀, hu, hcoll⟩
  | insert hnew hver hid huser =>
    rcases List.mem_append.mp hmem with hmem | hmem
    · exact mem_collectionRows.mpr ⟨hmem, hu, hcoll⟩
    · rw [List.mem_singleton.mp hmem] at hu hcoll
      exact absurd ⟨hu, hcoll⟩ hout

/-- What holds along a run: the client is up to date to its position, and that is the end when
it has caught up. -/
structure KeepsUp (u : UserId) (coll : String) (client : ℕ → Bool) (tr : List Ev) (db : Database)
    (p : ℤ) : Prop where
  upToDate : UpToDate u coll client tr db p
  reached : CaughtUp u coll client tr → ∀ r ∈ collectionRows u coll db, r.id ≤ p

theorem keepsUp_nil {db : Database} (hv : db.Valid) : KeepsUp u coll client [] db 0 := by
  refine ⟨⟨rfl, hv.sync_range.1, fun r hr hle => ?_⟩, fun hc => absurd hc not_since_nil⟩
  have := (hv.sync_sequence r (mem_collectionRows.mp hr).1).1
  omega

theorem listing?_eq_none_of_write {ev : Ev} {w : RecordWrite} (h : writeOf ev = some w) :
    listing? u coll client ev = none := by
  unfold writeOf at h
  unfold listing?
  split at h
  · rename_i c hc
    cases c with
    | listChangesAfterCursor => cases h
    | upsertRecord => rw [hc]
    | tombstoneRecord => rw [hc]
  · cases h

/-- One call of any operation, when the client resumes and writes stay ahead of it. -/
theorem KeepsUp.step (cfg : ServerConfig) {s : Server} (h : KeepsUp u coll client tr s.db p)
    (hv : s.db.Valid) (i : ℕ) (c : Call) (hres : Resumes u coll client tr ⟨i, c, s⟩)
    (hahead : WritesAhead u coll client tr ⟨i, c, s⟩) :
    ∃ p', KeepsUp u coll client (tr ++ [⟨i, c, s⟩]) (c.exec cfg s).2.db p' := by
  rcases exec_sync_cases cfg i c s with ⟨hn, hrec, hseq⟩ | ⟨w, hw, hr, hcom⟩
  · have hrows : collectionRows u coll (c.exec cfg s).2.db = collectionRows u coll s.db := by
      rw [collectionRows, hrec, collectionRows]
    cases hl : listing? u coll client ⟨i, c, s⟩ with
    | none =>
      have hpage := page?_eq_none hl
      obtain ⟨hcur, hseen⟩ := client_of_none tr hpage
      have hup : UpToDate u coll client (tr ++ [⟨i, c, s⟩]) s.db p :=
        ⟨hcur ▸ h.upToDate.parses, h.upToDate.le_sequence, fun r hr hle =>
          (hseen _).trans (h.upToDate.current r hr hle)⟩
      refine ⟨p, hup.congr hrec hseq, fun hcaught => ?_⟩
      rw [hrows]
      rcases since_snoc.mp hcaught with ⟨page, hp, -⟩ | ⟨hc, -⟩
      · rw [hpage] at hp
        cases hp
      · exact h.reached hc
    | some q =>
      obtain ⟨cursor, limit⟩ := q
      obtain ⟨rfl, -⟩ := hres (cursor, limit) hl
      obtain ⟨p', hup, hle, hlast⟩ := h.upToDate.page hv hl
      refine ⟨p', hup.congr hrec hseq, fun hcaught => ?_⟩
      rw [hrows]
      rcases since_snoc.mp hcaught with ⟨page, hp, hdone⟩ | ⟨hc, -⟩
      · exact hlast (hahead.1 _ hl) page hp hdone
      · exact fun r hr => (h.reached hc r hr).trans hle
  · have hpage : page? u coll client ⟨i, c, s⟩ = none :=
      page?_eq_none (listing?_eq_none_of_write hw)
    obtain ⟨hcur, hseen⟩ := client_of_none tr hpage
    have hup := h.upToDate.commit hv hcom
      fun hu hc row hm hk hver => h.upToDate.position_eq ▸ hahead.2 w hw hu hc row hm hk hver
    refine ⟨p, ⟨hcur ▸ hup.parses, hup.le_sequence, fun r hr hle =>
      (hseen _).trans (hup.current r hr hle)⟩, fun hcaught r hmem => ?_⟩
    rcases since_snoc.mp hcaught with ⟨page, hp, -⟩ | ⟨hc, hwr⟩
    · rw [hpage] at hp
      cases hp
    · refine h.reached hc r (mem_of_committed hcom (fun hin => hwr ?_) hmem)
      simp only [writes, hw, hr, Option.any_some, Option.isSome_some, Bool.and_true,
        decide_eq_true_eq]
      exact hin

end Client

/-- Incremental sync is complete while writes stay ahead of the client: when a client that always
resumes from its last cursor has got a page without more to come and no record was written since,
the last row it has seen for every record of the collection is the current row. -/
theorem incremental_sync_complete (cfg : ServerConfig) (init : Server) (acts : List Act)
    (u : UserId) (coll : String) (client : ℕ → Bool) (hv : init.db.Valid)
    (hres : Always (Resumes u coll client) (serve cfg init acts).trace)
    (hahead : Always (WritesAhead u coll client) (serve cfg init acts).trace)
    (hdone : CaughtUp u coll client (serve cfg init acts).trace) :
    ∀ r ∈ collectionRows u coll (serve cfg init acts).state.db,
      lastSeen u coll client (serve cfg init acts).trace r.recordId = some r.toRecordRow := by
  obtain ⟨⟨-, p, hup, hreach⟩, -⟩ := (voxServer cfg).always_invariant (hres.and hahead)
    (I := fun tr s => s.db.Valid ∧ ∃ p, KeepsUp u coll client tr s.db p) ⟨hv, 0, keepsUp_nil hv⟩
    (fun tr s i c hq ⟨hvs, p, hp⟩ => ⟨c.exec_valid cfg hvs, hp.step cfg hvs i c hq.1 hq.2⟩)
    (fun _ _ _ h => h)
  exact fun r hr => hup.current r hr (hreach hdone r hr)

def oddThreads (i : ℕ) : Bool := i % 2 = 1

def listAfterEachWrite : List Act :=
  [.spawn (.single (.syncState (.upsertRecord "u" "notes" "r1" "c1" "h1" 0 0 5))), .run 0,
   .spawn (.single (.syncState (.listChangesAfterCursor "u" "notes" "" 10))), .run 1,
   .spawn (.single (.syncState (.upsertRecord "u" "notes" "r2" "c2" "h2" 0 0 5))), .run 2,
   .spawn (.single (.syncState (.listChangesAfterCursor "u" "notes" "1" 10))), .run 3]

theorem listAfterEachWrite_complete :
    lastSeen "u" "notes" oddThreads (serve default oneUser listAfterEachWrite).trace "r2" =
      some ⟨2, "r2", "c2", "h2", 1, false, 5⟩ :=
  incremental_sync_complete default oneUser listAfterEachWrite "u" "notes" oddThreads
    (by decide) (by decide) (by decide) (by decide)
    ⟨2, "u", "notes", "r2", "c2", "h2", 1, false, 5⟩ (by decide)

/-- The client lists, then the record that it has seen is updated, and the client lists again. -/
def updateBehindCursor : List Act :=
  [.spawn (.single (.syncState (.upsertRecord "u" "notes" "r1" "c1" "h1" 0 0 5))), .run 0,
   .spawn (.single (.syncState (.listChangesAfterCursor "u" "notes" "" 10))), .run 1,
   .spawn (.single (.syncState (.upsertRecord "u" "notes" "r1" "c2" "h2" 1 0 6))), .run 2,
   .spawn (.single (.syncState (.listChangesAfterCursor "u" "notes" "1" 10))), .run 3]

/-- The update keeps the row id, so the client that has caught up still holds the old version. -/
theorem updateBehindCursor_missed :
    oneUser.db.Valid ∧
    Always (Resumes "u" "notes" oddThreads) (serve default oneUser updateBehindCursor).trace ∧
    CaughtUp "u" "notes" oddThreads (serve default oneUser updateBehindCursor).trace ∧
    ¬ ∀ r ∈ collectionRows "u" "notes" (serve default oneUser updateBehindCursor).state.db,
      ∃ row, lastSeen "u" "notes" oddThreads (serve default oneUser updateBehindCursor).trace
        r.recordId = some row ∧ row.version = r.version ∧ row.ciphertext = r.ciphertext ∧
          row.deleted = r.deleted := by
  refine ⟨by decide, by decide, by decide, fun h => ?_⟩
  obtain ⟨row, hrow, hver, -⟩ := h ⟨1, "u", "notes", "r1", "c2", "h2", 2, false, 6⟩ (by decide)
  have hold : lastSeen "u" "notes" oddThreads (serve default oneUser updateBehindCursor).trace
      "r1" = some ⟨1, "r1", "c1", "h1", 1, false, 5⟩ := by decide
  rw [hold] at hrow
  cases hrow
  exact absurd hver (by decide)

end VoxServer.Incremental
