import Mathlib.Data.Prod.Lex
import VoxServer.Table.Paging
import VoxServer.Store.Schema

/-! # The envelope repository

Stored envelopes and the delivery state of each (envelope, device) pair. Both
listings are ordered by server timestamp and envelope id and resume after a
cursor that holds both.
-/

namespace VoxServer

open Table

structure EnvelopePage where
  envelopes : List EnvelopeRecord := []
  nextCursor : String := ""
  hasMore : Bool := false
  deriving DecidableEq, Repr

namespace EnvelopeRecord

def position (e : EnvelopeRecord) : ℤ ×ₗ String := toLex (e.serverTimestamp, e.envelopeId)

end EnvelopeRecord

namespace EnvelopeRepository

def makeEnvCursor (ts : Timestamp) (eid : EnvelopeId) : String :=
  toString ts ++ String.singleton '|' ++ eid

/-- `std::stoll`, with no value where it throws. -/
def stoll (cs : List Char) : Option ℤ :=
  (Text.leading cs).filter fun v => -2 ^ 63 ≤ v ∧ v < 2 ^ 63

/-- The position that a non-empty cursor stands for, if it can be parsed. -/
def parseEnvCursor (cursor : String) : Option (ℤ ×ₗ String) :=
  match Text.splitAtFirst '|' cursor.toList with
  | none => none
  | some ([], _) => none
  | some (ts, eid) =>
    match stoll ts with
    | none => none
    | some v => if eid = [] then none else some (toLex (v, String.ofList eid))

/-- `INSERT INTO encrypted_envelopes`. -/
def insertEnvelope (envelope : EnvelopeRecord) (db : Database) : Except SqliteError Database := do
  checkUnique "encrypted_envelopes.envelope_id" EnvelopeRecord.envelopeId envelope
    db.encryptedEnvelopes
  checkReference ConversationRecord.conversationId envelope.conversationId db.conversations
  checkReference DeviceRecord.key (envelope.senderUserId, envelope.senderDeviceId) db.devices
  return { db with encryptedEnvelopes := db.encryptedEnvelopes ++ [envelope] }

def storeEnvelope (envelope : EnvelopeRecord) (db : Database) : VoidResult × Database :=
  match insertEnvelope envelope db with
  | .ok db' => (.ok (), db')
  | .error .full => (.error SqliteError.full.toInternal, db)
  | .error _ => (.error ⟨.duplicate, "Envelope already exists"⟩, db)

/-- `INSERT INTO delivery_state`. -/
def insertDeliveryState (row : DeliveryStateRecord) (db : Database) :
    Except SqliteError Database := do
  checkUnique ("delivery_state.envelope_id, delivery_state.target_user_id, " ++
    "delivery_state.target_device_id") DeliveryStateRecord.key row db.deliveryState
  checkReference EnvelopeRecord.envelopeId row.envelopeId db.encryptedEnvelopes
  checkReference DeviceRecord.key (row.targetUserId, row.targetDeviceId) db.devices
  return { db with deliveryState := db.deliveryState ++ [row] }

def addDeliveryState (envelopeId : EnvelopeId) (targetUserId : UserId) (targetDeviceId : DeviceId)
    (now : Timestamp) (db : Database) : VoidResult × Database :=
  match insertDeliveryState ⟨envelopeId, targetUserId, targetDeviceId, now, none, none⟩ db with
  | .ok db' => (.ok (), db')
  | .error e => (.error e.toInternal, db)

/-- The rows of the listing of pending envelopes: a join with the undelivered, unacked states. -/
def pendingRows (userId : UserId) (deviceId : DeviceId) (db : Database) : List EnvelopeRecord :=
  db.encryptedEnvelopes.flatMap fun e =>
    (db.deliveryState.filter fun d => d.key = (e.envelopeId, userId, deviceId) ∧
      d.deliveredAt = none ∧ d.ackedAt = none).map fun _ => e

def conversationRows (conversationId : ConversationId) (db : Database) : List EnvelopeRecord :=
  db.encryptedEnvelopes.filter (·.conversationId = conversationId)

/-- One page of `rows` after the cursor; an empty cursor starts at the first row. -/
def cursoredPage (cursor : String) (limit : UInt64) (rows : List EnvelopeRecord) : EnvelopePage :=
  let page := fun pos : Option (ℤ ×ₗ String) =>
    let (envelopes, hasMore) := lookAhead limit (remaining EnvelopeRecord.position pos rows)
    let nextCursor :=
      match envelopes.getLast? with
      | some last => makeEnvCursor last.serverTimestamp last.envelopeId
      | none => ""
    { envelopes, nextCursor, hasMore }
  if cursor = "" then page none else
  match parseEnvCursor cursor with
  | none => { hasMore := false }
  | some pos => page (some pos)

def getPendingForDeviceCursored (userId : UserId) (deviceId : DeviceId) (cursor : String)
    (limit : UInt64) (db : Database) : EnvelopePage :=
  cursoredPage cursor limit (pendingRows userId deviceId db)

def listForConversationCursored (conversationId : ConversationId) (cursor : String)
    (limit : UInt64) (db : Database) : EnvelopePage :=
  cursoredPage cursor limit (conversationRows conversationId db)

/-- The listing without a cursor: what is later than a timestamp, in the order of timestamps. -/
def listForConversation (conversationId : ConversationId) (sinceExclusive : Timestamp)
    (limit : UInt64) (db : Database) : List EnvelopeRecord :=
  let later := (conversationRows conversationId db).filter (sinceExclusive < ·.serverTimestamp)
  applyLimit limit.toInt64.toInt
    (later.insertionSort fun e e' => e.serverTimestamp ≤ e'.serverTimestamp)

/-- The statement of `MarkDelivered` and `MarkAcked`. -/
def updateDelivery (envelopeId : EnvelopeId) (userId : UserId) (deviceId : DeviceId)
    (f : DeliveryStateRecord → DeliveryStateRecord) (db : Database) : VoidResult × Database :=
  let p := fun d : DeliveryStateRecord => decide (d.key = (envelopeId, userId, deviceId))
  let db' := { db with deliveryState := updateWhere p f db.deliveryState }
  if db.deliveryState.countP p = 0 then (.error ⟨.notFound, "Delivery state not found"⟩, db')
  else (.ok (), db')

def markDelivered (envelopeId : EnvelopeId) (userId : UserId) (deviceId : DeviceId)
    (now : Timestamp) : Database → VoidResult × Database :=
  updateDelivery envelopeId userId deviceId fun d => { d with deliveredAt := some now }

def markAcked (envelopeId : EnvelopeId) (userId : UserId) (deviceId : DeviceId)
    (now : Timestamp) : Database → VoidResult × Database :=
  updateDelivery envelopeId userId deviceId fun d => { d with ackedAt := some now }

def idsIn (conversationId : ConversationId) (db : Database) : List EnvelopeId :=
  (conversationRows conversationId db).map (·.envelopeId)

def deletePendingDeliveryForUserInConversation (conversationId : ConversationId) (userId : UserId)
    (db : Database) : VoidResult × Database :=
  (.ok (), { db with
    deliveryState := deleteWhere
      (fun d => d.targetUserId = userId ∧ d.envelopeId ∈ idsIn conversationId db)
      db.deliveryState })

/-- The condition `retention_until IS NOT NULL AND retention_until < now`. -/
def expired (now : Timestamp) (e : EnvelopeRecord) : Bool := e.retentionUntil.any (· < now)

def deleteExpired (now : Timestamp) (db : Database) : ℕ × Database :=
  let ids := (db.encryptedEnvelopes.filter (expired now)).map (·.envelopeId)
  (db.encryptedEnvelopes.countP (expired now), { db with
    deliveryState := deleteWhere (·.envelopeId ∈ ids) db.deliveryState
    encryptedEnvelopes := deleteWhere (expired now) db.encryptedEnvelopes })

def checkDuplicate (envelopeId : EnvelopeId) (db : Database) : Bool :=
  db.encryptedEnvelopes.any (·.envelopeId = envelopeId)

def findById (envelopeId : EnvelopeId) (db : Database) : Option EnvelopeRecord :=
  db.encryptedEnvelopes.find? (·.envelopeId = envelopeId)

def countPendingForDevice (userId : UserId) (deviceId : DeviceId) (db : Database) : ℕ :=
  db.deliveryState.countP fun d => d.targetUserId = userId ∧ d.targetDeviceId = deviceId ∧
    d.deliveredAt = none ∧ d.ackedAt = none

section Cursors

/-- A printed cursor stands for its row, for timestamps of 64 bits and non-empty ids. -/
theorem parseEnvCursor_make {ts : Timestamp} {eid : EnvelopeId} (hts : -2 ^ 63 ≤ ts ∧ ts < 2 ^ 63)
    (heid : eid ≠ "") : parseEnvCursor (makeEnvCursor ts eid) = some (toLex (ts, eid)) := by
  have hsplit : Text.splitAtFirst '|' (makeEnvCursor ts eid).toList =
      some ((toString ts).toList, eid.toList) := by
    simpa [makeEnvCursor] using
      Text.splitAtFirst_append (Text.not_mem_toString ts (by decide) (by decide)) eid.toList
  obtain ⟨c, cs, hc, -⟩ := Text.head_toString ts
  have hl : Text.leading (toString ts).toList = some ts := by
    simpa only [List.append_nil] using
      Text.leading_toString ts (show ∀ c ∈ ([] : List Char).head?, ¬ c.isDigit by simp)
  have hs : stoll (toString ts).toList = some ts := by
    rw [stoll, hl, Option.filter_some, if_pos (by simpa using hts)]
  have hne : eid.toList ≠ [] := fun h => heid (String.toList_inj.mp (h.trans rfl))
  unfold parseEnvCursor
  rw [hsplit, hc]
  simp only
  rw [← hc, hs]
  simp [hne]

/-- The position a cursor resumes after: none at the start, else that of the row it names. -/
def ResumesAt (cursor : String) : Option (ℤ ×ₗ String) → Prop
  | none => cursor = ""
  | some p => parseEnvCursor cursor = some p

variable {cursor : String} {pos : Option (ℤ ×ₗ String)} {limit : UInt64}
  {rows : List EnvelopeRecord} {e l : EnvelopeRecord}

variable (limit rows) in
theorem cursoredPage_eq (h : ResumesAt cursor pos) :
    (cursoredPage cursor limit rows).envelopes =
      (lookAhead limit (remaining EnvelopeRecord.position pos rows)).1 ∧
    (cursoredPage cursor limit rows).hasMore =
      (lookAhead limit (remaining EnvelopeRecord.position pos rows)).2 ∧
    (cursoredPage cursor limit rows).nextCursor =
      match (cursoredPage cursor limit rows).envelopes.getLast? with
      | some last => makeEnvCursor last.serverTimestamp last.envelopeId
      | none => "" := by
  cases pos with
  | none =>
    obtain rfl : cursor = "" := h
    exact ⟨rfl, rfl, rfl⟩
  | some p =>
    have hp : parseEnvCursor cursor = some p := h
    have hne : cursor ≠ "" := by
      rintro rfl
      cases hp
    simp only [cursoredPage, if_neg hne, hp, and_self]

theorem mem_cursoredPage (h : ResumesAt cursor pos)
    (he : e ∈ (cursoredPage cursor limit rows).envelopes) :
    e ∈ rows ∧ pos.all (· < e.position) := by
  rw [(cursoredPage_eq _ _ h).1] at he
  exact mem_remaining.mp ((lookAhead_isPrefix limit _).subset he)

theorem cursoredPage_subset : (cursoredPage cursor limit rows).envelopes ⊆ rows := by
  intro e he
  by_cases hc : cursor = ""
  · have hat : ResumesAt cursor none := hc
    exact (mem_cursoredPage hat he).1
  · cases hp : parseEnvCursor cursor with
    | some p =>
      have hat : ResumesAt cursor (some p) := hp
      exact (mem_cursoredPage hat he).1
    | none => simp [cursoredPage, hc, hp] at he

theorem mem_cursoredPage_iff (hu : UniqueOn EnvelopeRecord.position rows)
    (h : ResumesAt cursor pos) (hl : (cursoredPage cursor limit rows).envelopes.getLast? = some l)
    (he : e ∈ rows) : e ∈ (cursoredPage cursor limit rows).envelopes ↔
      pos.all (· < e.position) ∧ e.position ≤ l.position := by
  rw [(cursoredPage_eq _ _ h).1] at hl ⊢
  exact mem_page_iff hu (lookAhead_isPrefix limit _) hl he

theorem mem_cursoredPage_of_not_hasMore (hlim : limit ≠ UInt64.ofNat (2 ^ 64 - 1))
    (h : ResumesAt cursor pos) (hm : (cursoredPage cursor limit rows).hasMore = false)
    (he : e ∈ rows) (hp : pos.all (· < e.position)) :
    e ∈ (cursoredPage cursor limit rows).envelopes := by
  obtain ⟨henv, hmore, -⟩ := cursoredPage_eq limit rows h
  rw [hmore] at hm
  rw [henv, lookAhead_complete hlim hm]
  exact mem_remaining.mpr ⟨he, hp⟩

theorem nodup_cursoredPage (hu : UniqueOn EnvelopeRecord.position rows) (h : ResumesAt cursor pos) :
    (cursoredPage cursor limit rows).envelopes.Nodup := by
  rw [(cursoredPage_eq _ _ h).1]
  exact (nodup_remaining hu).sublist (lookAhead_isPrefix limit _).sublist

end Cursors

theorem mem_conversationRows {c : ConversationId} {db : Database} {e : EnvelopeRecord} :
    e ∈ conversationRows c db ↔ e ∈ db.encryptedEnvelopes ∧ e.conversationId = c := by
  simp [conversationRows]

theorem mem_pendingRows {u : UserId} {d : DeviceId} {db : Database} {e : EnvelopeRecord} :
    e ∈ pendingRows u d db ↔ e ∈ db.encryptedEnvelopes ∧
      ∃ s ∈ db.deliveryState, s.key = (e.envelopeId, u, d) ∧ s.deliveredAt = none ∧
        s.ackedAt = none := by
  simp only [pendingRows, List.mem_flatMap, List.mem_map, List.mem_filter, decide_eq_true_eq]
  constructor
  · rintro ⟨e', he', s, ⟨hs, hk⟩, rfl⟩
    exact ⟨he', s, hs, hk⟩
  · rintro ⟨he, s, hs, hk⟩
    exact ⟨e, he, s, ⟨hs, hk⟩, rfl⟩

theorem pendingRows_sublist {db : Database} (h : UniqueOn DeliveryStateRecord.key db.deliveryState)
    (u : UserId) (d : DeviceId) : (pendingRows u d db).Sublist db.encryptedEnvelopes := by
  have hjoin := h.flatMap_join
    (q := fun (e : EnvelopeRecord) s =>
      s.key = (e.envelopeId, u, d) ∧ s.deliveredAt = none ∧ s.ackedAt = none)
    (fun e s s' hs hs' => (of_decide_eq_true hs).1.trans (of_decide_eq_true hs').1.symm)
    db.encryptedEnvelopes
  rw [pendingRows, hjoin]
  exact List.filter_sublist

theorem mem_idsIn {c : ConversationId} {db : Database} {i : EnvelopeId} :
    i ∈ idsIn c db ↔ ∃ e ∈ db.encryptedEnvelopes, e.conversationId = c ∧ e.envelopeId = i := by
  simp [idsIn, conversationRows, and_assoc]

theorem uniqueOn_position {rows : List EnvelopeRecord}
    (h : UniqueOn EnvelopeRecord.envelopeId rows) : UniqueOn EnvelopeRecord.position rows := by
  have hid : EnvelopeRecord.envelopeId = (fun p => (ofLex p).2) ∘ EnvelopeRecord.position := rfl
  rw [UniqueOn, hid, ← List.map_map] at h
  exact h.of_map _

theorem insertEnvelope_ok {e : EnvelopeRecord} {db db' : Database}
    (h : insertEnvelope e db = .ok db') :
    (∀ e' ∈ db.encryptedEnvelopes, e'.envelopeId ≠ e.envelopeId) ∧
    (∃ c ∈ db.conversations, c.conversationId = e.conversationId) ∧
    (∃ d ∈ db.devices, d.key = (e.senderUserId, e.senderDeviceId)) ∧
    db' = { db with encryptedEnvelopes := db.encryptedEnvelopes ++ [e] } := by
  obtain ⟨hid, h⟩ := checkUnique_bind_ok.mp h
  obtain ⟨hc, h⟩ := checkReference_bind_ok.mp h
  obtain ⟨hd, h⟩ := checkReference_bind_ok.mp h
  cases h
  exact ⟨hid, hc, hd, rfl⟩

theorem storeEnvelope_ok {e : EnvelopeRecord} {db : Database}
    (h : (storeEnvelope e db).1 = .ok ()) :
    insertEnvelope e db = .ok (storeEnvelope e db).2 := by
  unfold storeEnvelope at h ⊢
  split at h
  · assumption
  · cases h
  · cases h

theorem storeEnvelope_error {e : EnvelopeRecord} {db : Database} {err : Error}
    (h : (storeEnvelope e db).1 = .error err) : (storeEnvelope e db).2 = db := by
  unfold storeEnvelope at h ⊢
  split at h
  · cases h
  · rfl
  · rfl

theorem storeEnvelope_deliveryState (e : EnvelopeRecord) (db : Database) :
    (storeEnvelope e db).2.deliveryState = db.deliveryState := by
  unfold storeEnvelope
  split
  · rename_i h
    obtain ⟨-, -, -, rfl⟩ := insertEnvelope_ok h
    rfl
  · rfl
  · rfl

theorem insertDeliveryState_ok {row : DeliveryStateRecord} {db db' : Database}
    (h : insertDeliveryState row db = .ok db') :
    (∀ d ∈ db.deliveryState, d.key ≠ row.key) ∧
    (∃ e ∈ db.encryptedEnvelopes, e.envelopeId = row.envelopeId) ∧
    (∃ d ∈ db.devices, d.key = (row.targetUserId, row.targetDeviceId)) ∧
    db' = { db with deliveryState := db.deliveryState ++ [row] } := by
  obtain ⟨hk, h⟩ := checkUnique_bind_ok.mp h
  obtain ⟨he, h⟩ := checkReference_bind_ok.mp h
  obtain ⟨hd, h⟩ := checkReference_bind_ok.mp h
  cases h
  exact ⟨hk, he, hd, rfl⟩

theorem addDeliveryState_snd {e : EnvelopeId} {u : UserId} {d : DeviceId} {db : Database}
    (hk : ∀ r ∈ db.deliveryState, r.key ≠ (e, u, d))
    (he : ∃ r ∈ db.encryptedEnvelopes, r.envelopeId = e)
    (hd : ∃ r ∈ db.devices, r.key = (u, d)) (now : Timestamp) :
    (addDeliveryState e u d now db).2 =
      { db with deliveryState := db.deliveryState ++ [⟨e, u, d, now, none, none⟩] } := by
  have h : insertDeliveryState ⟨e, u, d, now, none, none⟩ db =
      .ok { db with deliveryState := db.deliveryState ++ [⟨e, u, d, now, none, none⟩] } :=
    checkUnique_bind_ok.mpr
      ⟨hk, checkReference_bind_ok.mpr ⟨he, checkReference_bind_ok.mpr ⟨hd, rfl⟩⟩⟩
  rw [addDeliveryState, h]

theorem addDeliveryState_cases (e : EnvelopeId) (u : UserId) (d : DeviceId) (now : Timestamp)
    (db : Database) : (addDeliveryState e u d now db).2 = db ∨
      (addDeliveryState e u d now db).2 =
        { db with deliveryState := db.deliveryState ++ [⟨e, u, d, now, none, none⟩] } := by
  unfold addDeliveryState
  split
  · rename_i h
    exact .inr (insertDeliveryState_ok h).2.2.2
  · exact .inl rfl

theorem markAcked_ok {e : EnvelopeId} {u : UserId} {d : DeviceId} {now : Timestamp}
    {db : Database} {r : DeliveryStateRecord} (hr : r ∈ db.deliveryState)
    (hk : r.key = (e, u, d)) : (markAcked e u d now db).1 = .ok () := by
  unfold markAcked updateDelivery
  dsimp only
  rw [if_neg]
  intro h
  exact List.countP_eq_zero.mp h r hr (decide_eq_true hk)

end EnvelopeRepository

/-- The calls of the repository, each one atomic. -/
inductive EnvelopeCall
  | storeEnvelope (envelope : EnvelopeRecord)
  | addDeliveryState (envelopeId : EnvelopeId) (targetUserId : UserId) (targetDeviceId : DeviceId)
      (now : Timestamp)
  | getPendingForDeviceCursored (userId : UserId) (deviceId : DeviceId) (cursor : String)
      (limit : UInt64)
  | listForConversation (conversationId : ConversationId) (sinceExclusive : Timestamp)
      (limit : UInt64)
  | listForConversationCursored (conversationId : ConversationId) (cursor : String)
      (limit : UInt64)
  | markDelivered (envelopeId : EnvelopeId) (userId : UserId) (deviceId : DeviceId)
      (now : Timestamp)
  | markAcked (envelopeId : EnvelopeId) (userId : UserId) (deviceId : DeviceId) (now : Timestamp)
  | deletePendingDeliveryForUserInConversation (conversationId : ConversationId) (userId : UserId)
  | deleteExpired (now : Timestamp)
  | checkDuplicate (envelopeId : EnvelopeId)
  | findById (envelopeId : EnvelopeId)
  | countPendingForDevice (userId : UserId) (deviceId : DeviceId)
  deriving DecidableEq, Repr

namespace EnvelopeCall

open EnvelopeRepository

@[reducible] def Reply : EnvelopeCall → Type
  | storeEnvelope _ => VoidResult
  | addDeliveryState .. => VoidResult
  | getPendingForDeviceCursored .. => EnvelopePage
  | listForConversation .. => List EnvelopeRecord
  | listForConversationCursored .. => EnvelopePage
  | markDelivered .. => VoidResult
  | markAcked .. => VoidResult
  | deletePendingDeliveryForUserInConversation .. => VoidResult
  | deleteExpired _ => ℕ
  | checkDuplicate _ => Bool
  | findById _ => Option EnvelopeRecord
  | countPendingForDevice .. => ℕ

def exec : (c : EnvelopeCall) → Database → c.Reply × Database
  | storeEnvelope e, db => EnvelopeRepository.storeEnvelope e db
  | addDeliveryState e u d now, db => EnvelopeRepository.addDeliveryState e u d now db
  | getPendingForDeviceCursored u d cur n, db =>
    (EnvelopeRepository.getPendingForDeviceCursored u d cur n db, db)
  | listForConversation c t n, db => (EnvelopeRepository.listForConversation c t n db, db)
  | listForConversationCursored c cur n, db =>
    (EnvelopeRepository.listForConversationCursored c cur n db, db)
  | markDelivered e u d now, db => EnvelopeRepository.markDelivered e u d now db
  | markAcked e u d now, db => EnvelopeRepository.markAcked e u d now db
  | deletePendingDeliveryForUserInConversation c u, db =>
    EnvelopeRepository.deletePendingDeliveryForUserInConversation c u db
  | deleteExpired now, db => EnvelopeRepository.deleteExpired now db
  | checkDuplicate e, db => (EnvelopeRepository.checkDuplicate e db, db)
  | findById e, db => (EnvelopeRepository.findById e db, db)
  | countPendingForDevice u d, db => (EnvelopeRepository.countPendingForDevice u d db, db)

inductive Effect (db : Database) : EnvelopeCall → Database → Prop
  | same (c : EnvelopeCall) : Effect db c db
  | store (e : EnvelopeRecord) (db' : Database) (h : insertEnvelope e db = .ok db') :
      Effect db (.storeEnvelope e) db'
  | addState (e : EnvelopeId) (u : UserId) (d : DeviceId) (now : Timestamp) (db' : Database)
      (h : insertDeliveryState ⟨e, u, d, now, none, none⟩ db = .ok db') :
      Effect db (.addDeliveryState e u d now) db'
  | delivered (e : EnvelopeId) (u : UserId) (d : DeviceId) (now : Timestamp) :
      Effect db (.markDelivered e u d now) { db with
        deliveryState := updateWhere (·.key = (e, u, d))
          (fun d => { d with deliveredAt := some now }) db.deliveryState }
  | acked (e : EnvelopeId) (u : UserId) (d : DeviceId) (now : Timestamp) :
      Effect db (.markAcked e u d now) { db with
        deliveryState := updateWhere (·.key = (e, u, d))
          (fun d => { d with ackedAt := some now }) db.deliveryState }
  | purge (c : ConversationId) (u : UserId) :
      Effect db (.deletePendingDeliveryForUserInConversation c u)
        (EnvelopeRepository.deletePendingDeliveryForUserInConversation c u db).2
  | expire (now : Timestamp) :
      Effect db (.deleteExpired now) (EnvelopeRepository.deleteExpired now db).2

theorem updateDelivery_snd (e : EnvelopeId) (u : UserId) (d : DeviceId)
    (f : DeliveryStateRecord → DeliveryStateRecord) (db : Database) :
    (updateDelivery e u d f db).2 =
      { db with deliveryState := updateWhere (·.key = (e, u, d)) f db.deliveryState } := by
  unfold updateDelivery
  dsimp only
  split <;> rfl

theorem exec_effect (c : EnvelopeCall) (db : Database) : Effect db c (c.exec db).2 := by
  cases c with
  | storeEnvelope e =>
    simp only [exec, EnvelopeRepository.storeEnvelope]
    split
    · exact .store e _ ‹_›
    · exact .same _
    · exact .same _
  | addDeliveryState e u d now =>
    simp only [exec, EnvelopeRepository.addDeliveryState]
    split
    · exact .addState e u d now _ ‹_›
    · exact .same _
  | getPendingForDeviceCursored u d cur n => exact .same _
  | listForConversation c t n => exact .same _
  | listForConversationCursored c cur n => exact .same _
  | markDelivered e u d now =>
    simp only [exec, EnvelopeRepository.markDelivered, updateDelivery_snd]
    exact .delivered e u d now
  | markAcked e u d now =>
    simp only [exec, EnvelopeRepository.markAcked, updateDelivery_snd]
    exact .acked e u d now
  | deletePendingDeliveryForUserInConversation c u => exact .purge c u
  | deleteExpired now => exact .expire now
  | checkDuplicate e => exact .same _
  | findById e => exact .same _
  | countPendingForDevice u d => exact .same _

variable {c : EnvelopeCall} {db db' : Database}

theorem Effect.frame (he : Effect db c db') :
    ∃ es ds, db' = { db with encryptedEnvelopes := es, deliveryState := ds } := by
  cases he with
  | same => exact ⟨_, _, rfl⟩
  | store e _ h => obtain ⟨-, -, -, rfl⟩ := insertEnvelope_ok h; exact ⟨_, _, rfl⟩
  | addState e u d now _ h =>
    obtain ⟨-, -, -, rfl⟩ := insertDeliveryState_ok h; exact ⟨_, _, rfl⟩
  | delivered => exact ⟨_, _, rfl⟩
  | acked => exact ⟨_, _, rfl⟩
  | purge => exact ⟨_, _, rfl⟩
  | expire => exact ⟨_, _, rfl⟩

theorem Effect.keeps_envelope (he : Effect db c db') (hc : ∀ now, c ≠ .deleteExpired now)
    {e : EnvelopeRecord} (h : e ∈ db.encryptedEnvelopes) : e ∈ db'.encryptedEnvelopes := by
  cases he with
  | store e' _ hins =>
    obtain ⟨-, -, -, rfl⟩ := insertEnvelope_ok hins
    exact List.mem_append_left _ h
  | addState e' u d now _ hins =>
    obtain ⟨-, -, -, rfl⟩ := insertDeliveryState_ok hins
    exact h
  | expire now => exact absurd rfl (hc now)
  | _ => exact h

theorem Effect.envelope_mem (he : Effect db c db') {e : EnvelopeRecord}
    (h : e ∈ db'.encryptedEnvelopes) : e ∈ db.encryptedEnvelopes ∨
      c = .storeEnvelope e ∧ ∀ r ∈ db.encryptedEnvelopes, r.envelopeId ≠ e.envelopeId := by
  cases he with
  | store e' _ hins =>
    obtain ⟨hnew, -, -, rfl⟩ := insertEnvelope_ok hins
    rcases List.mem_append.mp h with h | h
    · exact .inl h
    · obtain rfl := List.mem_singleton.mp h
      exact .inr ⟨rfl, hnew⟩
  | addState e' u d now _ hins =>
    obtain ⟨-, -, -, rfl⟩ := insertDeliveryState_ok hins
    exact .inl h
  | expire now => exact .inl (mem_deleteWhere.mp h).1
  | _ => exact .inl h

/-- Where a delivery state of the database comes from: it was there, is new, or was marked. -/
theorem Effect.row_mem (he : Effect db c db') {r : DeliveryStateRecord}
    (h : r ∈ db'.deliveryState) :
    r ∈ db.deliveryState ∨ (r.deliveredAt = none ∧ r.ackedAt = none) ∨
      (∃ e u d now, c = .markDelivered e u d now) ∨
      ∃ now, c = .markAcked r.envelopeId r.targetUserId r.targetDeviceId now ∧
        ∃ r₀ ∈ db.deliveryState, r₀.key = r.key := by
  cases he with
  | same => exact .inl h
  | store e' _ hins =>
    obtain ⟨-, -, -, rfl⟩ := insertEnvelope_ok hins
    exact .inl h
  | addState e' u d now _ hins =>
    obtain ⟨-, -, -, rfl⟩ := insertDeliveryState_ok hins
    rcases List.mem_append.mp h with h | h
    · exact .inl h
    · rw [List.mem_singleton.mp h]
      exact .inr (.inl ⟨rfl, rfl⟩)
  | delivered e u d now => exact .inr (.inr (.inl ⟨e, u, d, now, rfl⟩))
  | acked e u d now =>
    obtain ⟨r₀, hr₀, rfl⟩ := mem_updateWhere.mp h
    split
    · rename_i hk
      simp only [decide_eq_true_eq] at hk
      obtain ⟨rfl, rfl, rfl⟩ : r₀.envelopeId = e ∧ r₀.targetUserId = u ∧ r₀.targetDeviceId = d := by
        simpa [DeliveryStateRecord.key] using hk
      exact .inr (.inr (.inr ⟨now, rfl, r₀, hr₀, rfl⟩))
    · exact .inl hr₀
  | purge => exact .inl (mem_deleteWhere.mp h).1
  | expire now => exact .inl (mem_deleteWhere.mp h).1

theorem Effect.row_kept (he : Effect db c db') (hv : db.Valid) {r : DeliveryStateRecord}
    (h : r ∈ db.deliveryState) :
    (∃ r' ∈ db'.deliveryState, r'.key = r.key) ∨
      (∃ conv, c = .deletePendingDeliveryForUserInConversation conv r.targetUserId ∧
        r.envelopeId ∈ idsIn conv db) ∨
      ∀ e ∈ db'.encryptedEnvelopes, e.envelopeId ≠ r.envelopeId := by
  cases he with
  | same => exact .inl ⟨r, h, rfl⟩
  | store e' _ hins =>
    obtain ⟨-, -, -, rfl⟩ := insertEnvelope_ok hins
    exact .inl ⟨r, h, rfl⟩
  | addState e' u d now _ hins =>
    obtain ⟨-, -, -, rfl⟩ := insertDeliveryState_ok hins
    exact .inl ⟨r, List.mem_append_left _ h, rfl⟩
  | delivered e u d now =>
    refine .inl ((exists_key_updateWhere ?_).mpr ⟨r, h, rfl⟩)
    exact fun _ => rfl
  | acked e u d now =>
    refine .inl ((exists_key_updateWhere ?_).mpr ⟨r, h, rfl⟩)
    exact fun _ => rfl
  | purge conv u =>
    by_cases hp : r.targetUserId = u ∧ r.envelopeId ∈ idsIn conv db
    · obtain ⟨rfl, hid⟩ := hp
      exact .inr (.inl ⟨conv, rfl, hid⟩)
    · exact .inl ⟨r, mem_deleteWhere.mpr ⟨h, by simpa using hp⟩, rfl⟩
  | expire now =>
    by_cases hx : ∃ e ∈ db.encryptedEnvelopes, expired now e ∧ e.envelopeId = r.envelopeId
    · -- the id is unique, so no envelope with it stays
      obtain ⟨e, he, hexp, hid⟩ := hx
      refine .inr (.inr fun e' he' hid' => ?_)
      obtain ⟨he', hn⟩ := mem_deleteWhere.mp he'
      rw [hv.envelopes_pk.eq_of_mem he' he (hid'.trans hid.symm)] at hn
      exact hn hexp
    · refine .inl ⟨r, mem_deleteWhere.mpr ⟨h, ?_⟩, rfl⟩
      simp only [List.mem_map, List.mem_filter, decide_eq_true_eq]
      rintro ⟨e, ⟨he, hexp⟩, hid⟩
      exact hx ⟨e, he, hexp, hid⟩

theorem valid_updateDelivery {p : DeliveryStateRecord → Bool}
    {f : DeliveryStateRecord → DeliveryStateRecord} (hf : ∀ d, (f d).key = d.key) (h : db.Valid) :
    Database.Valid { db with deliveryState := updateWhere p f db.deliveryState } :=
  { h with
    delivery_pk := h.delivery_pk.updateWhere hf
    delivery_envelope := h.delivery_envelope.updateWhere fun d => congrArg Prod.fst (hf d)
    delivery_device := h.delivery_device.updateWhere fun d => congrArg Prod.snd (hf d) }

theorem Effect.valid (he : Effect db c db') (h : db.Valid) : db'.Valid := by
  cases he with
  | same => exact h
  | store e _ hins =>
    obtain ⟨hid, hc, hd, rfl⟩ := insertEnvelope_ok hins
    exact { h with
      envelopes_pk := uniqueOn_append_singleton.mpr ⟨h.envelopes_pk, hid⟩
      envelopes_conversation := h.envelopes_conversation.append_singleton hc
      envelopes_sender := h.envelopes_sender.append_singleton hd
      delivery_envelope := h.delivery_envelope.append_parents _ }
  | addState e u d now _ hins =>
    obtain ⟨hk, he, hd, rfl⟩ := insertDeliveryState_ok hins
    exact { h with
      delivery_pk := uniqueOn_append_singleton.mpr ⟨h.delivery_pk, hk⟩
      delivery_envelope := h.delivery_envelope.append_singleton he
      delivery_device := h.delivery_device.append_singleton hd }
  | delivered => exact valid_updateDelivery (fun _ => rfl) h
  | acked => exact valid_updateDelivery (fun _ => rfl) h
  | purge =>
    exact { h with
      delivery_pk := h.delivery_pk.deleteWhere
      delivery_envelope := h.delivery_envelope.deleteWhere
      delivery_device := h.delivery_device.deleteWhere }
  | expire now =>
    refine { h with
      delivery_pk := h.delivery_pk.deleteWhere
      envelopes_pk := h.envelopes_pk.deleteWhere
      envelopes_conversation := h.envelopes_conversation.deleteWhere
      envelopes_sender := h.envelopes_sender.deleteWhere
      delivery_device := h.delivery_device.deleteWhere
      delivery_envelope := ?_ }
    -- a delivery state that stays belongs to an envelope that did not expire
    intro d hd
    obtain ⟨hd, hkeep⟩ := mem_deleteWhere.mp hd
    obtain ⟨e, he, hid⟩ := h.delivery_envelope d hd
    refine ⟨e, mem_deleteWhere.mpr ⟨he, fun hexp => hkeep ?_⟩, hid⟩
    simp only [List.mem_map, List.mem_filter, decide_eq_true_eq]
    exact ⟨e, ⟨he, hexp⟩, hid⟩

end EnvelopeCall

end VoxServer
