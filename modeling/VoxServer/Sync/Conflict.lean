import VoxServer.Interleaving.Sequential
import VoxServer.Net.Paths

/-! # Conflicts of sync records over HTTP

A request names the version that its write builds on as a JSON integer of up to 64 bits.
The handlers narrow it to an `int` before the repository compares it with the stored
version, so numbers with the same low 32 bits are one version. A write is refused exactly
where the integer differs from the stored version, unless narrowing hides the difference.
-/

namespace VoxServer

open Interleaving

namespace Http.Handled

def succeeded : Handled → Bool
  | .response r => r.status = 200
  | _ => false

def isError : Handled → Bool
  | .response r => 400 ≤ r.status
  | _ => false

@[simp] theorem succeeded_jsonRes (version : ℕ) (v : Json) : (jsonRes version 200 v).succeeded :=
  rfl

@[simp] theorem isError_serviceError (version : ℕ) (e : Error) :
    (serviceError version e).isError := by
  obtain ⟨code, message⟩ := e
  cases code <;> rfl

theorem not_succeeded_of_isError {h : Handled} (he : h.isError) : ¬ h.succeeded := by
  cases h with
  | unhandled => cases he
  | threw => cases he
  | response r =>
    simp only [isError, succeeded, decide_eq_true_eq] at he ⊢
    omega

end Http.Handled

namespace Conflict

open Http SyncStateRepository

variable {k : UserId × String × String} {v : Int32} {b : ℤ} {m : Verb} {db : Database}

/-- The stored version of a record as an integer. A record that does not exist has the version 0
for a `PUT` request, and none for a `DELETE` request. -/
def currentVersion (m : Verb) (k : UserId × String × String) (db : Database) : Option ℤ :=
  match db.syncRecords.find? (·.key = k) with
  | some row => some row.version.toInt
  | none => if m = .put then some 0 else none

def insertable (u : UserId) (db : Database) : Bool :=
  db.syncSequence + 1 < 2 ^ 63 ∧ db.users.any (·.userId = u)

/-- An `int` holds the number. -/
def fitsInt (b : ℤ) : Bool := -2 ^ 31 ≤ b ∧ b < 2 ^ 31

/-- Narrowing the number to an `int` does not make it the stored version, and a record that is
written for the first time can be inserted. -/
def unambiguous (m : Verb) (k : UserId × String × String) (b : ℤ) (db : Database) : Bool :=
  match db.syncRecords.find? (·.key = k) with
  | some row => fitsInt b ∨ Int32.ofInt b ≠ row.version
  | none =>
    if m ≠ .put then true
    else if insertable k.1 db then fitsInt b ∨ Int32.ofInt b ≠ 0
    else b ≠ 0

/-- What the repository takes, by the narrowed version. -/
def accepts (m : Verb) (k : UserId × String × String) (v : Int32) (db : Database) : Bool :=
  match db.syncRecords.find? (·.key = k) with
  | some row => row.version = v
  | none => m = .put ∧ v = 0 ∧ insertable k.1 db

section Repository

variable {u : UserId} {coll r ct hash : String} {t now : Timestamp}

theorem insertRecord_of_insertable (row : SyncRow) (hi : insertable row.userId db)
    (hnew : ∀ r ∈ db.syncRecords, r.key ≠ row.key) : ∃ db', insertRecord row db = .ok db' := by
  obtain ⟨hseq, hu⟩ := of_decide_eq_true hi
  obtain ⟨x, hx, he⟩ := List.any_eq_true.mp hu
  refine ⟨{ db with
    syncRecords := db.syncRecords ++ [{ row with id := db.syncSequence + 1 }]
    syncSequence := db.syncSequence + 1 }, ?_⟩
  unfold insertRecord
  rw [if_neg (by omega)]
  apply checkUnique_bind_ok.mpr ⟨hnew, ?_⟩
  exact checkReference_bind_ok.mpr ⟨⟨x, hx, by simpa using he⟩, rfl⟩

theorem insertable_of_insertRecord {row : SyncRow} {db' : Database}
    (h : insertRecord row db = .ok db') : insertable row.userId db := by
  obtain ⟨hseq, -, ⟨x, hx, he⟩, -⟩ := insertRecord_ok h
  exact decide_eq_true ⟨hseq, List.any_eq_true.mpr ⟨x, hx, by simpa using he⟩⟩

theorem upsertRecord_cases :
    if accepts .put (u, coll, r) v db then
      ∃ x, (upsertRecord u coll r ct hash v t now db).1 = .ok x
    else ∃ e, upsertRecord u coll r ct hash v t now db = (.error e, db) := by
  unfold accepts upsertRecord
  cases hf : db.syncRecords.find? (·.key = (u, coll, r)) with
  | some row => by_cases hv : row.version = v <;> simp [hv]
  | none =>
    by_cases hv : v = 0
    · subst hv
      have hnew : ∀ x ∈ db.syncRecords, x.key ≠ (u, coll, r) := by
        simpa using List.find?_eq_none.mp hf
      simp only [true_and, decide_eq_true_eq, ne_eq, not_true_eq_false, if_false]
      split
      · rename_i hi
        obtain ⟨db', hins⟩ := insertRecord_of_insertable
          ⟨0, u, coll, r, ct, hash, kInitialRecordVersion, false, now⟩ hi hnew
        simp [hins]
      · rename_i hi
        split
        · exact absurd (insertable_of_insertRecord ‹_›) hi
        · exact ⟨_, rfl⟩
    · simp [hv]

theorem tombstoneRecord_cases :
    if accepts .delete (u, coll, r) v db then
      ∃ x, (tombstoneRecord u coll r v t now db).1 = .ok x
    else ∃ e, tombstoneRecord u coll r v t now db = (.error e, db) := by
  unfold accepts tombstoneRecord
  cases hf : db.syncRecords.find? (·.key = (u, coll, r)) with
  | some row => by_cases hv : row.version = v <;> simp [hv]
  | none => simp

end Repository

section Handlers

variable {cfg : ServerConfig} {draws : Draws} {sess : SessionRecord} {req : HttpRequest}
  {coll r : String} {s : Server}

/-- A request of the session that writes one of its records on top of the version `b`, with a body
that is valid otherwise. -/
structure WritesRecord (cfg : ServerConfig) (sess : SessionRecord) (req : HttpRequest)
    (coll r : String) (b : ℤ) : Prop where
  verb : req.method = .put ∨ req.method = .delete
  path : pathOnly req.target = "/v1/sync/records/" ++ coll ++ "/" ++ r
  collection : '/' ∉ coll.toList
  body : ∃ o, parseBody cfg req = .ok o ∧ jsonField o "device_id" = sess.deviceId ∧
    o.lookup "base_version" = some (.int b)
  range : -2 ^ 63 ≤ b ∧ b < 2 ^ 64

/-- The request succeeds exactly on the current version; otherwise it is answered with an error
and the server stays as it was. -/
def Exact (cfg : ServerConfig) (draws : Draws) (sess : SessionRecord) (req : HttpRequest)
    (k : UserId × String × String) (b : ℤ) (s : Server) : Prop :=
  (handleAuthenticated cfg draws sess req).Ends (Call.exec cfg) (fun answer s' =>
    (answer.succeeded ↔ currentVersion req.method k s.db = some b) ∧
      (currentVersion req.method k s.db ≠ some b → answer.isError ∧ s' = s)) s

theorem ofInt_toInt64 (b : ℤ) : Int32.ofInt (toInt64 b) = Int32.ofInt b := by
  rw [← Int32.toInt_inj, Int32.toInt_ofInt, Int32.toInt_ofInt, toInt64]
  exact Int.bmod_bmod_of_dvd (by decide)

theorem splitSyncRecordPath_append (h : '/' ∉ coll.toList) :
    splitSyncRecordPath ("/v1/sync/records/" ++ coll ++ "/" ++ r) = some (coll, r) :=
  splitPrefixedPath_eq_some.mpr ⟨rfl, h⟩

theorem putRoute_record {self : UserId} (h : '/' ∉ coll.toList) :
    putRoute self ("/v1/sync/records/" ++ coll ++ "/" ++ r) = some (.syncRecord coll r) := by
  have hne : "/v1/sync/records/" ++ coll ++ "/" ++ r ≠ "/v1/sync/key-bundle" := by
    intro he
    simpa using congrArg String.toList he
  rw [putRoute, if_neg hne, splitSyncRecordPath_append h]

theorem deleteRoute_record (h : '/' ∉ coll.toList) :
    deleteRoute ("/v1/sync/records/" ++ coll ++ "/" ++ r) = some (.syncRecord coll r) := by
  have hne : after? "/v1/me/devices/" ("/v1/sync/records/" ++ coll ++ "/" ++ r) = none := by
    simp [after?]
  rw [deleteRoute, hne, splitSyncRecordPath_append h]

theorem withDevice_eq {o : List (String × Json)} (hparse : parseBody cfg req = .ok o)
    (hdev : jsonField o "device_id" = sess.deviceId)
    (f : List (String × Json) → ServerProg Handled) : withDevice cfg sess req f = f o := by
  unfold withDevice withBody
  rw [hparse]
  exact if_neg (not_not.mpr hdev)

theorem ends_recordWritten {fields : List (String × Json)}
    {res : Result SyncPutResult × Database} {p : Prop} [Decidable p]
    (h : if p then ∃ x, res.1 = .ok x else ∃ e, res = (.error e, s.db)) :
    (recordWritten cfg sess req coll r fields res.1).Ends (Call.exec cfg)
      (fun answer s' => if p then answer.succeeded else answer.isError ∧ s' = s)
      { s with db := res.2 } := by
  by_cases hp : p
  · simp only [if_pos hp] at h ⊢
    obtain ⟨x, hx⟩ := h
    rw [hx]
    exact Prog.Ends.bind rfl
  · simp only [if_neg hp] at h ⊢
    obtain ⟨e, rfl⟩ := h
    exact ⟨Handled.isError_serviceError _ e, rfl⟩

theorem ends_request (h : WritesRecord cfg sess req coll r b) :
    (handleAuthenticated cfg draws sess req).Ends (Call.exec cfg) (fun answer s' =>
      if accepts req.method (sess.userId, coll, r) (Int32.ofInt b) s.db then answer.succeeded
      else answer.isError ∧ s' = s) s := by
  obtain ⟨o, hparse, hdev, hb⟩ := h.body
  have hbase : baseVersion o = Int32.ofInt b := by
    simp [baseVersion, jsonInt, hb, ofInt_toInt64]
  rcases h.verb with hm | hm
  · simp only [handleAuthenticated, hm, handlePut, h.path, putRoute_record h.collection,
      putSyncRecord]
    rw [withDevice_eq hparse hdev, hbase]
    apply Prog.ends_perform_bind.mpr
    apply Prog.ends_perform_bind.mpr
    exact ends_recordWritten
      (upsertRecord_cases (t := (jsonInt o "client_updated_at").getD s.clock))
  · simp only [handleAuthenticated, hm, handleDelete, h.path, deleteRoute_record h.collection,
      deleteSyncRecord]
    rw [withDevice_eq hparse hdev, hbase]
    apply Prog.ends_perform_bind.mpr
    apply Prog.ends_perform_bind.mpr
    exact ends_recordWritten
      (tombstoneRecord_cases (t := (jsonInt o "client_updated_at").getD s.clock))

theorem ofInt_eq_iff (h : fitsInt b) : v = Int32.ofInt b ↔ v.toInt = b := by
  obtain ⟨hlo, hhi⟩ := of_decide_eq_true h
  rw [← Int32.toInt_inj, Int32.toInt_ofInt_of_le hlo hhi]

theorem fitsInt_toInt (v : Int32) : fitsInt v.toInt :=
  decide_eq_true ⟨v.le_toInt, v.toInt_lt⟩

theorem accepts_iff_current_iff (hm : m = .put ∨ m = .delete) :
    (accepts m k (Int32.ofInt b) db ↔ currentVersion m k db = some b) ↔ unambiguous m k b db := by
  unfold accepts currentVersion unambiguous
  cases db.syncRecords.find? (·.key = k) with
  | some row =>
    by_cases hfit : fitsInt b
    · simp [hfit, ofInt_eq_iff hfit]
    · have hne : row.version.toInt ≠ b := fun he => hfit (he ▸ fitsInt_toInt row.version)
      simp [hfit, hne, ne_comm]
  | none =>
    rcases hm with rfl | rfl
    · by_cases hi : insertable k.1 db
      · by_cases hfit : fitsInt b
        · have h0 : Int32.ofInt b = 0 ↔ 0 = b := by
            rw [eq_comm, ofInt_eq_iff hfit, Int32.toInt_zero]
          simp [hi, hfit, h0]
        · have hne : 0 ≠ b := by
            rintro rfl
            exact hfit rfl
          simp [hi, hfit, hne]
      · simpa [hi] using ne_comm
    · simp

theorem exact_of_decided {answer : Handled} {s' : Server} {p q : Prop} [Decidable p]
    (h : if p then answer.succeeded else answer.isError ∧ s' = s) :
    ((answer.succeeded ↔ q) ∧ (¬ q → answer.isError ∧ s' = s)) ↔ (p ↔ q) := by
  by_cases hp : p
  · rw [if_pos hp] at h
    constructor
    · rintro ⟨hq, -⟩
      exact ⟨fun _ => hq.mp h, fun _ => hp⟩
    · intro hq
      exact ⟨⟨fun _ => hq.mp hp, fun _ => h⟩, fun hn => absurd (hq.mp hp) hn⟩
  · rw [if_neg hp] at h
    have hs : ¬ answer.succeeded := Handled.not_succeeded_of_isError h.1
    constructor
    · rintro ⟨hq, -⟩
      exact ⟨fun h => absurd h hp, fun h => absurd (hq.mpr h) hs⟩
    · intro hq
      exact ⟨⟨fun h => absurd h hs, fun h => absurd (hq.mpr h) hp⟩, fun _ => h⟩

/-- The conflict rule is exact for a request where narrowing hides nothing. -/
theorem exact_iff_unambiguous (h : WritesRecord cfg sess req coll r b) (s : Server) :
    Exact cfg draws sess req (sess.userId, coll, r) b s ↔
      unambiguous req.method (sess.userId, coll, r) b s.db :=
  (exact_of_decided (ends_request h)).trans (accepts_iff_current_iff h.verb)

end Handlers

section Example

def oneRecord : Server where
  db :=
    { users := [{ (default : UserRecord) with userId := "u" }]
      syncRecords := [⟨1, "u", "notes", "r", "x", "h", 1, false, 0⟩]
      syncSequence := 1 }

def session : SessionRecord := { (default : SessionRecord) with userId := "u", deviceId := "d" }

def firstBody : String := "\x7b\"device_id\":\"d\",\"base_version\":1\x7d"

def wideBody : String := "\x7b\"device_id\":\"d\",\"base_version\":4294967297\x7d"

def bodies : ServerConfig :=
  .withBodies [(firstBody, .obj [("device_id", .str "d"), ("base_version", .int 1)]),
    (wideBody, .obj [("device_id", .str "d"), ("base_version", .int (2 ^ 32 + 1))])]

def putRecord (body : String) : HttpRequest where
  method := .put
  target := "/v1/sync/records/notes/r"
  body := body

theorem writesRecord_first : WritesRecord bodies session (putRecord firstBody) "notes" "r" 1 where
  verb := .inl rfl
  path := by decide
  collection := by decide
  body := ⟨_, rfl, by decide, rfl⟩
  range := by decide

theorem putRecord_exact : Exact bodies {} session (putRecord firstBody) ("u", "notes", "r") 1
    oneRecord :=
  (exact_iff_unambiguous writesRecord_first oneRecord).mpr (by decide)

/-- The write is taken although the record is at another version. -/
theorem putRecord_wide :
    WritesRecord bodies session (putRecord wideBody) "notes" "r" (2 ^ 32 + 1) ∧
      currentVersion .put ("u", "notes", "r") oneRecord.db = some 1 ∧
      ¬ Exact bodies {} session (putRecord wideBody) ("u", "notes", "r") (2 ^ 32 + 1)
        oneRecord := by
  refine ⟨⟨.inl rfl, by decide, by decide, ⟨_, rfl, by decide, rfl⟩, by decide⟩, rfl, ?_⟩
  intro h
  have hcur := h.1.mp rfl
  exact absurd hcur (by decide)

end Example

end Conflict
end VoxServer
