import VoxServer.Table.Paging
import VoxServer.Store.Schema

/-! # The sync state repository

Records of a user's collections, written under optimistic locking and listed in
row order after a cursor. A successful write either inserts the record with a
new row id or updates the row it already has.
-/

namespace VoxServer

open Table

structure SyncRecordRow where
  rowId : ℤ := 0
  recordId : String
  ciphertext : String
  contentHash : String
  version : Int32 := 0
  deleted : Bool := false
  serverUpdatedAt : Timestamp := 0
  deriving DecidableEq, Repr

structure SyncPutResult where
  recordId : String
  version : Int32 := 0
  serverUpdatedAt : Timestamp := 0
  deleted : Bool := false
  deriving DecidableEq, Repr

structure SyncChangesPage where
  changes : List SyncRecordRow := []
  nextCursor : String := ""
  hasMore : Bool := false
  deriving DecidableEq, Repr

def SyncRow.toRecordRow (r : SyncRow) : SyncRecordRow :=
  { rowId := r.id, recordId := r.recordId, ciphertext := r.ciphertext, contentHash := r.contentHash
    version := r.version, deleted := r.deleted, serverUpdatedAt := r.serverUpdatedAt }

namespace SyncStateRepository

def kInitialRecordVersion : Int32 := 1

def parseCursorId (cursor : String) : Option ℤ :=
  if cursor = "" then some 0 else
  match Text.signed cursor.toList with
  | some (v, []) => if -2 ^ 63 ≤ v ∧ v < 2 ^ 63 then some v else none
  | _ => none

theorem parseCursorId_toString {n : ℤ} (h : -2 ^ 63 ≤ n ∧ n < 2 ^ 63) :
    parseCursorId (toString n) = some n := by
  have hs : Text.signed (toString n).toList = some (n, []) := by
    simpa only [List.append_nil] using
      Text.signed_toString n (show ∀ c ∈ ([] : List Char).head?, ¬ c.isDigit by simp)
  have hne : toString n ≠ "" := by
    intro he
    rw [he] at hs
    cases hs
  rw [parseCursorId, if_neg hne, hs]
  exact if_pos h

def collectionRows (userId : UserId) (collection : String) (db : Database) : List SyncRow :=
  db.syncRecords.filter fun r => r.userId = userId ∧ r.collection = collection

def listChangesAfterCursor (userId : UserId) (collection cursor : String) (limit : UInt64)
    (db : Database) : SyncChangesPage :=
  match parseCursorId cursor with
  | none => { nextCursor := "", hasMore := false }
  | some afterId =>
    let (rows, hasMore) :=
      lookAhead limit (remaining SyncRow.id (some afterId) (collectionRows userId collection db))
    let nextCursor :=
      match rows.getLast? with
      | some r => toString r.id
      | none => cursor
    { changes := rows.map SyncRow.toRecordRow, nextCursor, hasMore }

def pageRows (userId : UserId) (collection : String) (afterId : ℤ) (limit : UInt64)
    (db : Database) : List SyncRow :=
  (lookAhead limit (remaining SyncRow.id (some afterId) (collectionRows userId collection db))).1

section Listing

variable {u : UserId} {coll cursor : String} {p : ℤ} {limit : UInt64} {db : Database} {r : SyncRow}

theorem mem_collectionRows : r ∈ collectionRows u coll db ↔
    r ∈ db.syncRecords ∧ r.userId = u ∧ r.collection = coll := by
  simp [collectionRows]

theorem mem_of_mem_pageRows (hr : r ∈ pageRows u coll p limit db) :
    r ∈ collectionRows u coll db ∧ p < r.id := by
  simpa using mem_remaining.mp ((lookAhead_isPrefix limit _).subset hr)

theorem changes_eq (hc : parseCursorId cursor = some p) :
    (listChangesAfterCursor u coll cursor limit db).changes =
      (pageRows u coll p limit db).map SyncRow.toRecordRow := by
  simp only [listChangesAfterCursor, hc, pageRows]

variable (u coll limit) in
/-- A page moves the cursor forward over exactly the rows that it returns. -/
theorem nextCursor_spec (h : db.Valid) (hc : parseCursorId cursor = some p) :
    ∃ p', parseCursorId (listChangesAfterCursor u coll cursor limit db).nextCursor = some p' ∧
      (p' = p ∨ p < p' ∧ p' ≤ db.syncSequence) ∧ ∀ r ∈ collectionRows u coll db,
        r ∈ pageRows u coll p limit db ↔ p < r.id ∧ r.id ≤ p' := by
  simp only [listChangesAfterCursor, hc]
  cases hl : (pageRows u coll p limit db).getLast? with
  | none =>
    refine ⟨p, ?_, .inl rfl, fun r _ => ?_⟩
    · rw [pageRows] at hl
      rw [hl]
      exact hc
    · rw [List.getLast?_eq_none_iff.mp hl]
      simp only [List.not_mem_nil, false_iff]
      omega
  | some l =>
    obtain ⟨hm, hlt⟩ := mem_of_mem_pageRows (List.mem_of_getLast? hl)
    have hl' := h.sync_sequence l (mem_collectionRows.mp hm).1
    have hseq := h.sync_range.2
    refine ⟨l.id, ?_, .inr ⟨hlt, hl'.2⟩, fun r hr => ?_⟩
    · rw [pageRows] at hl
      rw [hl]
      exact parseCursorId_toString (by omega)
    · have hu : UniqueOn SyncRow.id (collectionRows u coll db) :=
        h.sync_pk.sublist (List.filter_sublist.map _)
      simpa [pageRows] using mem_page_iff hu (lookAhead_isPrefix limit _) hl hr

theorem mem_pageRows_of_not_hasMore (hlim : limit ≠ UInt64.ofNat (2 ^ 64 - 1))
    (hc : parseCursorId cursor = some p)
    (hm : (listChangesAfterCursor u coll cursor limit db).hasMore = false)
    (hr : r ∈ collectionRows u coll db) (hp : p < r.id) : r ∈ pageRows u coll p limit db := by
  simp only [listChangesAfterCursor, hc] at hm
  rw [pageRows, lookAhead_complete hlim hm]
  exact mem_remaining.mpr ⟨hr, by simpa using hp⟩

end Listing

def versionConflict : Error := ⟨.duplicate, "Version conflict for sync record"⟩

/-- `INSERT INTO sync_records`, where `AUTOINCREMENT` gives the row id. -/
def insertRecord (row : SyncRow) (db : Database) : Except SqliteError Database := do
  if db.syncSequence + 1 ≥ 2 ^ 63 then throw .full
  checkUnique "sync_records.user_id, sync_records.collection, sync_records.record_id"
    SyncRow.key row db.syncRecords
  checkReference UserRecord.userId row.userId db.users
  let id := db.syncSequence + 1
  return { db with syncRecords := db.syncRecords ++ [{ row with id }], syncSequence := id }

theorem insertRecord_ok {row : SyncRow} {db db' : Database} (h : insertRecord row db = .ok db') :
    db.syncSequence + 1 < 2 ^ 63 ∧ (∀ r ∈ db.syncRecords, r.key ≠ row.key) ∧
      (∃ u ∈ db.users, u.userId = row.userId) ∧
      db' = { db with
        syncRecords := db.syncRecords ++ [{ row with id := db.syncSequence + 1 }]
        syncSequence := db.syncSequence + 1 } := by
  unfold insertRecord at h
  split at h
  · cases h
  · rename_i hlt
    obtain ⟨hu, h⟩ := checkUnique_bind_ok.mp h
    obtain ⟨hr, h⟩ := checkReference_bind_ok.mp h
    cases h
    exact ⟨by omega, hu, hr, rfl⟩

def upsertRecord (userId : UserId) (collection recordId ciphertext contentHash : String)
    (baseVersion : Int32) (_clientUpdatedAt serverNow : Timestamp) (db : Database) :
    Result SyncPutResult × Database :=
  match db.syncRecords.find? (·.key = (userId, collection, recordId)) with
  | some row =>
    if row.version ≠ baseVersion then (.error versionConflict, db) else
    let newVer := row.version + 1
    let upd := fun r : SyncRow =>
      { r with ciphertext, contentHash, version := newVer, deleted := false
               serverUpdatedAt := serverNow }
    (.ok { recordId, version := newVer, serverUpdatedAt := serverNow, deleted := false },
      { db with syncRecords :=
          updateWhere (·.key = (userId, collection, recordId)) upd db.syncRecords })
  | none =>
    if baseVersion ≠ 0 then (.error versionConflict, db) else
    let row : SyncRow :=
      { id := 0, userId, collection, recordId, ciphertext, contentHash
        version := kInitialRecordVersion, deleted := false, serverUpdatedAt := serverNow }
    match insertRecord row db with
    | .ok db' =>
      (.ok { recordId, version := 1, serverUpdatedAt := serverNow, deleted := false }, db')
    | .error e => (.error e.toInternal, db)

def tombstoneRecord (userId : UserId) (collection recordId : String) (baseVersion : Int32)
    (_clientUpdatedAt serverNow : Timestamp) (db : Database) : Result SyncPutResult × Database :=
  match db.syncRecords.find? (·.key = (userId, collection, recordId)) with
  | none => (.error ⟨.notFound, "Sync record not found"⟩, db)
  | some row =>
    if row.version ≠ baseVersion then (.error versionConflict, db) else
    let newVer := row.version + 1
    let upd := fun r : SyncRow =>
      { r with ciphertext := "", contentHash := "", version := newVer, deleted := true
               serverUpdatedAt := serverNow }
    (.ok { recordId, version := newVer, serverUpdatedAt := serverNow, deleted := true },
      { db with syncRecords :=
          updateWhere (·.key = (userId, collection, recordId)) upd db.syncRecords })

end SyncStateRepository

/-- The calls of the repository, each one atomic. -/
inductive SyncCall
  | listChangesAfterCursor (userId : UserId) (collection cursor : String) (limit : UInt64)
  | upsertRecord (userId : UserId) (collection recordId ciphertext contentHash : String)
      (baseVersion : Int32) (clientUpdatedAt serverNow : Timestamp)
  | tombstoneRecord (userId : UserId) (collection recordId : String) (baseVersion : Int32)
      (clientUpdatedAt serverNow : Timestamp)
  deriving DecidableEq, Repr

/-- What a write call asks for: the record, the version it builds on and the new content. -/
structure RecordWrite where
  key : UserId × String × String
  baseVersion : Int32
  ciphertext : String
  contentHash : String
  deleted : Bool
  serverUpdatedAt : Timestamp
  deriving DecidableEq, Repr

namespace RecordWrite

def applyTo (w : RecordWrite) (r : SyncRow) : SyncRow :=
  { r with ciphertext := w.ciphertext, contentHash := w.contentHash, version := w.baseVersion + 1
           deleted := w.deleted, serverUpdatedAt := w.serverUpdatedAt }

def newRow (w : RecordWrite) (id : ℤ) : SyncRow :=
  { id, userId := w.key.1, collection := w.key.2.1, recordId := w.key.2.2
    ciphertext := w.ciphertext, contentHash := w.contentHash, version := w.baseVersion + 1
    deleted := w.deleted, serverUpdatedAt := w.serverUpdatedAt }

def result (w : RecordWrite) : SyncPutResult :=
  { recordId := w.key.2.2, version := w.baseVersion + 1, serverUpdatedAt := w.serverUpdatedAt
    deleted := w.deleted }

@[simp] theorem applyTo_id (w : RecordWrite) (r : SyncRow) : (w.applyTo r).id = r.id := rfl

@[simp] theorem applyTo_key (w : RecordWrite) (r : SyncRow) : (w.applyTo r).key = r.key := rfl

@[simp] theorem applyTo_userId (w : RecordWrite) (r : SyncRow) :
    (w.applyTo r).userId = r.userId := rfl

@[simp] theorem newRow_id (w : RecordWrite) (id : ℤ) : (w.newRow id).id = id := rfl

@[simp] theorem newRow_key (w : RecordWrite) (id : ℤ) : (w.newRow id).key = w.key := rfl

end RecordWrite

/-- A write took effect: it updated the row of its record, or inserted the first one. -/
inductive Committed (w : RecordWrite) (db : Database) : Database → Prop
  | update (row : SyncRow) (hm : row ∈ db.syncRecords) (hkey : row.key = w.key)
      (hver : row.version = w.baseVersion) : Committed w db
        { db with syncRecords := updateWhere (·.key = w.key) w.applyTo db.syncRecords }
  | insert (hnew : ∀ r ∈ db.syncRecords, r.key ≠ w.key) (hver : w.baseVersion = 0)
      (hid : db.syncSequence + 1 < 2 ^ 63) (huser : ∃ u ∈ db.users, u.userId = w.key.1) :
      Committed w db { db with
        syncRecords := db.syncRecords ++ [w.newRow (db.syncSequence + 1)]
        syncSequence := db.syncSequence + 1 }

namespace SyncCall

open SyncStateRepository

@[reducible] def Reply : SyncCall → Type
  | listChangesAfterCursor .. => SyncChangesPage
  | upsertRecord .. => Result SyncPutResult
  | tombstoneRecord .. => Result SyncPutResult

def exec : (c : SyncCall) → Database → c.Reply × Database
  | listChangesAfterCursor u c cur n, db =>
    (SyncStateRepository.listChangesAfterCursor u c cur n db, db)
  | upsertRecord u c r ct h b t now, db => SyncStateRepository.upsertRecord u c r ct h b t now db
  | tombstoneRecord u c r b t now, db => SyncStateRepository.tombstoneRecord u c r b t now db

def write? : SyncCall → Option RecordWrite
  | listChangesAfterCursor .. => none
  | upsertRecord u c r ct h b _ now => some ⟨(u, c, r), b, ct, h, false, now⟩
  | tombstoneRecord u c r b _ now => some ⟨(u, c, r), b, "", "", true, now⟩

def commit? : SyncCall → Database → Option SyncPutResult
  | listChangesAfterCursor .., _ => none
  | upsertRecord u c r ct h b t now, db =>
    (SyncStateRepository.upsertRecord u c r ct h b t now db).1.toOption
  | tombstoneRecord u c r b t now, db =>
    (SyncStateRepository.tombstoneRecord u c r b t now db).1.toOption

theorem exec_cases (c : SyncCall) (db : Database) :
    (c.commit? db = none ∧ (c.exec db).2 = db) ∨
    ∃ w, c.write? = some w ∧ c.commit? db = some w.result ∧ Committed w db (c.exec db).2 := by
  cases c with
  | listChangesAfterCursor u c cur n => exact .inl ⟨rfl, rfl⟩
  | upsertRecord u c r ct h b t now =>
    simp only [commit?, exec, write?, SyncStateRepository.upsertRecord]
    cases hf : db.syncRecords.find? (·.key = (u, c, r)) with
    | some row =>
      have hkey : row.key = (u, c, r) := by simpa using List.find?_some hf
      by_cases hver : row.version = b
      · subst hver
        refine .inr ⟨_, rfl, ?_, ?_⟩
        · simp [RecordWrite.result, Except.toOption]
        · simp only [ne_eq, not_true_eq_false, if_false]
          exact .update row (List.mem_of_find?_eq_some hf) hkey rfl
      · exact .inl (by simp [hver, Except.toOption])
    | none =>
      by_cases hb : b = 0
      · subst hb
        simp only [ne_eq, not_true_eq_false, if_false]
        split
        · rename_i db' hins
          obtain ⟨hlt, hnew, hu, rfl⟩ := insertRecord_ok hins
          exact .inr ⟨_, rfl, rfl, .insert hnew rfl hlt hu⟩
        · exact .inl ⟨rfl, rfl⟩
      · exact .inl (by simp [hb, Except.toOption])
  | tombstoneRecord u c r b t now =>
    simp only [commit?, exec, write?, SyncStateRepository.tombstoneRecord]
    cases hf : db.syncRecords.find? (·.key = (u, c, r)) with
    | none => exact .inl ⟨rfl, rfl⟩
    | some row =>
      by_cases hver : row.version = b
      · subst hver
        have hkey : row.key = (u, c, r) := by simpa using List.find?_some hf
        refine .inr ⟨_, rfl, ?_, ?_⟩
        · simp [RecordWrite.result, Except.toOption]
        · simp only [ne_eq, not_true_eq_false, if_false]
          exact .update row (List.mem_of_find?_eq_some hf) hkey rfl
      · exact .inl (by simp [hver, Except.toOption])

end SyncCall

theorem Committed.valid {w : RecordWrite} {db db' : Database} (hc : Committed w db db')
    (h : db.Valid) : db'.Valid := by
  cases hc with
  | update row hm hkey hver =>
    refine { h with
      sync_pk := h.sync_pk.updateWhere fun _ => rfl
      sync_key := h.sync_key.updateWhere fun _ => rfl
      sync_sequence := ?_
      sync_user := h.sync_user.updateWhere fun _ => rfl }
    intro r hr
    obtain ⟨r₀, hr₀, rfl⟩ := mem_updateWhere.mp hr
    have := h.sync_sequence r₀ hr₀
    split <;> exact this
  | insert hnew hver hid huser =>
    refine { h with
      sync_pk := uniqueOn_append_singleton.mpr ⟨h.sync_pk, fun r hr => ?_⟩
      sync_key := uniqueOn_append_singleton.mpr ⟨h.sync_key, hnew⟩
      sync_sequence := ?_
      sync_range := ⟨Int.le_add_one h.sync_range.1, hid⟩
      sync_user := h.sync_user.append_singleton huser }
    · have := (h.sync_sequence r hr).2
      simp only [RecordWrite.newRow_id]
      omega
    · intro r hr
      rcases List.mem_append.mp hr with hr | hr
      · exact ⟨(h.sync_sequence r hr).1, Int.le_add_one (h.sync_sequence r hr).2⟩
      · rw [List.mem_singleton.mp hr]
        exact ⟨Int.lt_add_one_of_le h.sync_range.1, le_rfl⟩

theorem SyncCall.exec_valid (c : SyncCall) {db : Database} (h : db.Valid) :
    (c.exec db).2.Valid := by
  rcases c.exec_cases db with ⟨-, he⟩ | ⟨w, -, -, hc⟩
  · rwa [he]
  · exact hc.valid h

end VoxServer
