import Mathlib.Data.Int.Interval
import VoxServer.History.Resume

/-! # Reading a listing to its end

The history of a conversation, the envelopes that wait for a device and the changes of
a collection are listed by pages. While the database stays as it is, a reader that
passes on each cursor gets every row once and in order, and then is told to stop.
-/

namespace VoxServer.History

open Table EnvelopeRepository SyncStateRepository

def historyPage (conv : ConversationId) (db : Database) (cursor : String) (limit : UInt64) :
    Page EnvelopeRecord String :=
  let page := listForConversationCursored conv cursor limit db
  ⟨page.envelopes, page.nextCursor, page.hasMore⟩

def pendingPage (u : UserId) (d : DeviceId) (db : Database) (cursor : String) (limit : UInt64) :
    Page EnvelopeRecord String :=
  let page := getPendingForDeviceCursored u d cursor limit db
  ⟨page.envelopes, page.nextCursor, page.hasMore⟩

def changesPage (u : UserId) (coll : String) (db : Database) (cursor : String) (limit : UInt64) :
    Page SyncRecordRow String :=
  let page := listChangesAfterCursor u coll cursor limit db
  ⟨page.changes, page.nextCursor, page.hasMore⟩

section Cursors

variable {db : Database}

theorem cursoredPage_lists {rows : List EnvelopeRecord} (hwf : ∀ e ∈ rows, WellFormed e) :
    Lists (fun cursor limit =>
      let page := cursoredPage cursor limit rows
      (⟨page.envelopes, page.nextCursor, page.hasMore⟩ : Page EnvelopeRecord String))
      EnvelopeRecord.position rows ResumesAt := by
  intro cursor pos limit hat
  obtain ⟨henv, hmore, hnext⟩ := cursoredPage_eq limit rows hat
  refine ⟨henv, hmore, fun l hl => ?_⟩
  dsimp only at hl ⊢
  rw [hnext, hl]
  obtain ⟨hid, hts⟩ := hwf l (mem_cursoredPage hat (List.mem_of_getLast? hl)).1
  exact parseEnvCursor_make hts hid

theorem uniqueOn_historyRows (hv : db.Valid) (conv : ConversationId) :
    UniqueOn EnvelopeRecord.position (conversationRows conv db) :=
  uniqueOn_position (hv.envelopes_pk.sublist (List.filter_sublist.map _))

theorem uniqueOn_pendingRows (hv : db.Valid) (u : UserId) (d : DeviceId) :
    UniqueOn EnvelopeRecord.position (pendingRows u d db) :=
  uniqueOn_position (hv.envelopes_pk.sublist ((pendingRows_sublist hv.delivery_pk u d).map _))

theorem uniqueOn_changeRows (hv : db.Valid) (u : UserId) (coll : String) :
    UniqueOn SyncRecordRow.rowId ((collectionRows u coll db).map SyncRow.toRecordRow) := by
  rw [UniqueOn, List.map_map]
  exact hv.sync_pk.sublist (List.filter_sublist.map _)

/-- The position of a cursor of changes, which is zero at the start. -/
def ChangesAt (cursor : String) (pos : Option ℤ) : Prop :=
  ∃ p, pos = some p ∧ parseCursorId cursor = some p

theorem changesPage_lists (hv : db.Valid) (u : UserId) (coll : String) :
    Lists (changesPage u coll db) SyncRecordRow.rowId
      ((collectionRows u coll db).map SyncRow.toRecordRow) ChangesAt := by
  rintro cursor _ limit ⟨p, rfl, hp⟩
  have hrem : remaining SyncRecordRow.rowId (some p)
      ((collectionRows u coll db).map SyncRow.toRecordRow) =
        (remaining SyncRow.id (some p) (collectionRows u coll db)).map SyncRow.toRecordRow :=
    remaining_map fun _ => rfl
  rw [hrem, lookAhead_map]
  simp only [changesPage, listChangesAfterCursor, hp]
  refine ⟨trivial, trivial, fun l hl => ?_⟩
  rw [List.getLast?_map, Option.map_eq_some_iff] at hl
  obtain ⟨r, hr, rfl⟩ := hl
  obtain ⟨hmem, -⟩ := mem_of_mem_pageRows (List.mem_of_getLast? hr)
  have hid := hv.sync_sequence r (mem_collectionRows.mp hmem).1
  have hseq := hv.sync_range.2
  rw [hr]
  exact ⟨r.id, rfl, parseCursorId_toString (by omega)⟩

end Cursors

theorem length_syncRecords_lt {db : Database} (hv : db.Valid) : db.syncRecords.length < 2 ^ 63 := by
  have hsub : (db.syncRecords.map SyncRow.id).toFinset ⊆ Finset.Icc 1 db.syncSequence := by
    intro i hi
    obtain ⟨r, hr, rfl⟩ := List.mem_map.mp (List.mem_toFinset.mp hi)
    have hid := hv.sync_sequence r hr
    exact Finset.mem_Icc.mpr ⟨by omega, hid.2⟩
  have hcard := Finset.card_le_card hsub
  rw [List.toFinset_card_of_nodup hv.sync_pk, List.length_map, Int.card_Icc] at hcard
  have hseq := hv.sync_range
  omega

/-- While the database does not change, each listing is enumerated by passing on its cursors. The
rows of the table of envelopes have row ids, which are assigned from 1 to 2^63 - 1. -/
theorem listings_enumerate {db : Database} (hv : db.Valid)
    (hwf : ∀ e ∈ db.encryptedEnvelopes, WellFormed e)
    (hsize : db.encryptedEnvelopes.length < 2 ^ 63)
    (limits : ℕ → UInt64) (hlim : ∀ i, 1 ≤ (limits i).toNat ∧ (limits i).toNat ≤ 2 ^ 64 - 2) :
    (∀ conv, ∃ n, Enumerates (historyPage conv db) "" limits EnvelopeRecord.position
      (conversationRows conv db) n) ∧
    (∀ u d, ∃ n, Enumerates (pendingPage u d db) "" limits EnvelopeRecord.position
      (pendingRows u d db) n) ∧
    ∀ u coll, ∃ n, Enumerates (changesPage u coll db) "" limits SyncRecordRow.rowId
      ((collectionRows u coll db).map SyncRow.toRecordRow) n := by
  have hlim' : ∀ i, 1 ≤ (limits i).toNat ∧ limits i ≠ UInt64.ofNat (2 ^ 64 - 1) := by
    intro i
    obtain ⟨hpos, hle⟩ := hlim i
    refine ⟨hpos, fun he => ?_⟩
    rw [he, UInt64.toNat_ofNat'] at hle
    omega
  have henv : ∀ rows : List EnvelopeRecord, rows.Sublist db.encryptedEnvelopes →
      UniqueOn EnvelopeRecord.position rows →
      ∃ n, Enumerates (fun cursor limit =>
        let page := cursoredPage cursor limit rows
        (⟨page.envelopes, page.nextCursor, page.hasMore⟩ : Page EnvelopeRecord String))
        "" limits EnvelopeRecord.position rows n := by
    intro rows hsub hu
    have hlt := hsub.length_le.trans_lt hsize
    have hstart : ResumesAt "" none := rfl
    exact (cursoredPage_lists fun e he => hwf e (hsub.subset he)).enumerates hu hstart
      (fun _ _ => rfl) hlt hlim'
  refine ⟨fun conv => ?_, fun u d => ?_, fun u coll => ?_⟩
  · exact henv _ List.filter_sublist (uniqueOn_historyRows hv conv)
  · exact henv _ (pendingRows_sublist hv.delivery_pk u d) (uniqueOn_pendingRows hv u d)
  · have hsub : (collectionRows u coll db).Sublist db.syncRecords := List.filter_sublist
    refine (changesPage_lists hv u coll).enumerates (uniqueOn_changeRows hv u coll)
      ⟨0, rfl, rfl⟩ ?_ ?_ hlim'
    · intro r hr
      obtain ⟨row, hrow, rfl⟩ := List.mem_map.mp hr
      exact decide_eq_true (hv.sync_sequence row (hsub.subset hrow)).1
    · rw [List.length_map]
      exact hsub.length_le.trans_lt (length_syncRecords_lt hv)

/-- Two envelopes of one second, one of them with a separator in its id and both waiting for a
device, and a sync record. -/
def twoRows : Database where
  users := [{ (default : UserRecord) with userId := "u" }]
  devices := [{ (default : DeviceRecord) with deviceId := "d", userId := "u" }]
  conversations := [{ (default : ConversationRecord) with conversationId := "c", createdBy := "u" }]
  encryptedEnvelopes :=
    ["x", "a|b"].map fun i => { (default : EnvelopeRecord) with
      envelopeId := i, conversationId := "c", senderUserId := "u", senderDeviceId := "d"
      serverTimestamp := -5 }
  deliveryState := [⟨"x", "u", "d", 0, none, none⟩, ⟨"a|b", "u", "d", 0, none, none⟩]
  syncRecords := [⟨1, "u", "s", "r", "", "", 1, false, 0⟩]
  syncSequence := 1

theorem twoRows_enumerated :
    (pageAt (historyPage "c" twoRows) "" (fun _ => 1) 0).rows.map (·.envelopeId) = ["a|b"] ∧
    (∃ n, Enumerates (historyPage "c" twoRows) "" (fun _ => 1) EnvelopeRecord.position
      (conversationRows "c" twoRows) n) ∧
    (∃ n, Enumerates (pendingPage "u" "d" twoRows) "" (fun _ => 1) EnvelopeRecord.position
      (pendingRows "u" "d" twoRows) n) ∧
    ∃ n, Enumerates (changesPage "u" "s" twoRows) "" (fun _ => 1) SyncRecordRow.rowId
      ((collectionRows "u" "s" twoRows).map SyncRow.toRecordRow) n := by
  obtain ⟨hhistory, hpending, hchanges⟩ := listings_enumerate (show twoRows.Valid by decide)
    (by decide) (by decide) (fun _ => 1) fun _ => by decide
  exact ⟨by decide, hhistory "c", hpending "u" "d", hchanges "u" "s"⟩

end VoxServer.History
