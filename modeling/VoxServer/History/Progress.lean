import VoxServer.History.Paging
import VoxServer.Net.HttpServer

/-! # The limits that clients send

The three listings are read over HTTP with a limit that is any text `std::stoull` accepts.
Each answer is the page of the repository for the number and the cursor of the query.
Paging moves on with every number except 0, for which a page has no rows and yet there are
more, and 2^64 - 1, for which nothing is fetched and the listing seems to be at its end.
-/

namespace VoxServer.Progress

open Interleaving Table History Http EnvelopeRepository SyncStateRepository

/-- A request for a page, with its limit and its cursor in the query. -/
structure Asks (req : HttpRequest) (limit cursor : String) : Prop where
  verb : req.method = .get
  limit : queryParam req.target "limit" = some limit
  cursor : (queryParam req.target "cursor").getD "" = cursor

/-- The request is answered with the value, and the server stays as it is. -/
def Answers (cfg : ServerConfig) (draws : Draws) (sess : SessionRecord) (s : Server)
    (req : HttpRequest) (v : Json) : Prop :=
  (handleAuthenticated cfg draws sess req).run (Call.exec cfg) s = (jsonRes req.version 200 v, s)

def envelopePageJson (page : Page EnvelopeRecord String) : Json :=
  envelopesJson page.rows page.next page.more

def changePageJson (coll : String) (page : Page SyncRecordRow String) : Json :=
  .obj [("collection", .str coll), ("changes", .arr (page.rows.map fun ch =>
      .obj [("record_id", .str ch.recordId), ("ciphertext", .str ch.ciphertext),
        ("content_hash", .str ch.contentHash), ("version", .int ch.version.toInt),
        ("server_updated_at", .int ch.serverUpdatedAt), ("deleted", .bool ch.deleted)])),
    ("next_cursor", .str page.next), ("has_more", .bool page.more)]

/-- A limit of which one more is a positive number, or a negative one that stands for no limit. -/
def moves (limit : UInt64) : Bool := limit ≠ 0 ∧ limit ≠ UInt64.ofNat (2 ^ 64 - 1)

section Answers

variable {cfg : ServerConfig} {draws : Draws} {sess : SessionRecord} {s : Server}
  {req : HttpRequest} {text cursor : String} {limit : UInt64}

theorem queryLimit_eq (h : Asks req text cursor) (hn : stoull text.toList = some limit) :
    queryLimit req kDefaultPaginationLimit = some limit := by
  rw [queryLimit, h.limit]
  exact hn

theorem answers_pending (h : Asks req text cursor) (hn : stoull text.toList = some limit)
    (hroute : getRoute (pathOnly req.target) = some .pending) :
    Answers cfg draws sess s req
      (envelopePageJson (pendingPage sess.userId sess.deviceId s.db cursor limit)) := by
  obtain ⟨hverb, -, rfl⟩ := id h
  unfold Answers handleAuthenticated handleGet getPending
  simp only [hverb, hroute, queryLimit_eq h hn]
  rfl

theorem answers_envelopes {conv : ConversationId} (h : Asks req text cursor)
    (hn : stoull text.toList = some limit)
    (hroute : getRoute (pathOnly req.target) = some (.envelopes conv))
    (hmember : ConversationRepository.isUserInConversation conv sess.userId s.db)
    (hsince : cursor = "" → queryParam req.target "since" = none) :
    Answers cfg draws sess s req (envelopePageJson (historyPage conv s.db cursor limit)) := by
  obtain ⟨hverb, -, rfl⟩ := id h
  have hcursored : (if (queryParam req.target "cursor").getD "" = "" then
      queryParam req.target "since" else none) = none := by
    split
    · exact hsince ‹_›
    · rfl
  unfold Answers handleAuthenticated handleGet getEnvelopes
  simp only [hverb, hroute, queryLimit_eq h hn, hcursored]
  simp only [ask, Prog.perform_bind, Prog.run_call]
  have hreply : (Call.exec cfg (.conversations (.isUserInConversation conv sess.userId)) s).1 =
    true := hmember
  simp only [hreply]
  rfl

theorem answers_changes {coll : String} (h : Asks req text cursor)
    (hn : stoull text.toList = some limit)
    (hroute : getRoute (pathOnly req.target) = some .changes)
    (hcoll : (queryParam req.target "collection").getD "" = coll) (hne : coll ≠ "") :
    Answers cfg draws sess s req
      (changePageJson coll (changesPage sess.userId coll s.db cursor limit)) := by
  obtain ⟨hverb, -, rfl⟩ := id h
  subst hcoll
  unfold Answers handleAuthenticated handleGet getChanges
  simp only [hverb, hroute, queryLimit_eq h hn, if_neg hne]
  rfl

end Answers

/-- Each listing answers with the page for the number and the cursor of the query, and reading it
on makes progress exactly if no row is left or the number is neither 0 nor 2^64 - 1. -/
theorem progress_iff_moves (cfg : ServerConfig) (draws : Draws) (sess : SessionRecord) {s : Server}
    (hv : s.db.Valid) (hwf : ∀ e ∈ s.db.encryptedEnvelopes, WellFormed e) {req : HttpRequest}
    {text cursor : String} (h : Asks req text cursor) {limit : UInt64}
    (hn : stoull text.toList = some limit) :
    (getRoute (pathOnly req.target) = some .pending → ∀ pos, ResumesAt cursor pos →
      let listing := pendingPage sess.userId sess.deviceId s.db
      let rows := pendingRows sess.userId sess.deviceId s.db
      Answers cfg draws sess s req (envelopePageJson (listing cursor limit)) ∧
        (Table.Progress listing EnvelopeRecord.position rows ResumesAt cursor pos limit ↔
          remaining EnvelopeRecord.position pos rows = [] ∨ moves limit)) ∧
    (∀ conv, getRoute (pathOnly req.target) = some (.envelopes conv) →
      ConversationRepository.isUserInConversation conv sess.userId s.db →
      (cursor = "" → queryParam req.target "since" = none) → ∀ pos, ResumesAt cursor pos →
      let listing := historyPage conv s.db
      let rows := conversationRows conv s.db
      Answers cfg draws sess s req (envelopePageJson (listing cursor limit)) ∧
        (Table.Progress listing EnvelopeRecord.position rows ResumesAt cursor pos limit ↔
          remaining EnvelopeRecord.position pos rows = [] ∨ moves limit)) ∧
    ∀ coll ≠ "", getRoute (pathOnly req.target) = some .changes →
      (queryParam req.target "collection").getD "" = coll → ∀ pos, ChangesAt cursor pos →
      let listing := changesPage sess.userId coll s.db
      let rows := (collectionRows sess.userId coll s.db).map SyncRow.toRecordRow
      Answers cfg draws sess s req (changePageJson coll (listing cursor limit)) ∧
        (Table.Progress listing SyncRecordRow.rowId rows ChangesAt cursor pos limit ↔
          remaining SyncRecordRow.rowId pos rows = [] ∨ moves limit) := by
  have hmoves : moves limit ↔ limit ≠ 0 ∧ limit ≠ UInt64.ofNat (2 ^ 64 - 1) := decide_eq_true_iff
  have hsub := pendingRows_sublist hv.delivery_pk sess.userId sess.deviceId
  rw [hmoves]
  refine ⟨fun hroute pos hat => ⟨answers_pending h hn hroute, ?_⟩,
    fun conv hroute hmember hsince pos hat =>
      ⟨answers_envelopes h hn hroute hmember hsince, ?_⟩,
    fun coll hne hroute hcoll pos hat => ⟨answers_changes h hn hroute hcoll hne, ?_⟩⟩
  · exact (cursoredPage_lists fun e he => hwf e (hsub.subset he)).progress_iff
      (uniqueOn_pendingRows hv _ _) hat
  · exact (cursoredPage_lists fun e he => hwf e (mem_conversationRows.mp he).1).progress_iff
      (uniqueOn_historyRows hv conv) hat
  · exact (changesPage_lists hv _ coll).progress_iff (uniqueOn_changeRows hv _ coll) hat

section Example

def session : SessionRecord := { (default : SessionRecord) with userId := "u", deviceId := "d" }

def getPending (limit : String) : HttpRequest where
  method := .get
  target := "/v1/sync/pending?limit=" ++ limit

theorem asks_one : Asks (getPending "1") "1" "" := ⟨rfl, by decide, by decide⟩

theorem pending_one_by_one :
    Table.Progress (pendingPage "u" "d" twoRows) EnvelopeRecord.position
      (pendingRows "u" "d" twoRows) ResumesAt "" none 1 :=
  ((progress_iff_moves default {} session (s := { db := twoRows }) (show twoRows.Valid by decide)
    (by decide) asks_one (show stoull "1".toList = some 1 by decide)).1
    (by decide) none rfl).2.mpr (.inr (by decide))

/-- With a limit of 0 there always is more and nothing is returned, and with one of 2^64 - 1 the
listing ends before its first row. -/
theorem pending_stuck :
    pendingRows "u" "d" twoRows ≠ [] ∧
    (Answers default {} session { db := twoRows } (getPending "0")
        (.obj [("envelopes", .arr []), ("next_cursor", .str ""), ("has_more", .bool true)]) ∧
      ¬ Table.Progress (pendingPage "u" "d" twoRows) EnvelopeRecord.position
        (pendingRows "u" "d" twoRows) ResumesAt "" none 0) ∧
    stoull "-1".toList = some (UInt64.ofNat (2 ^ 64 - 1)) ∧
    (Answers default {} session { db := twoRows } (getPending "-1")
        (.obj [("envelopes", .arr []), ("next_cursor", .str ""), ("has_more", .bool false)]) ∧
      ¬ Table.Progress (pendingPage "u" "d" twoRows) EnvelopeRecord.position
        (pendingRows "u" "d" twoRows) ResumesAt "" none (UInt64.ofNat (2 ^ 64 - 1))) := by
  have hrows : remaining EnvelopeRecord.position none (pendingRows "u" "d" twoRows) ≠ [] := by
    decide
  refine ⟨by decide, ⟨rfl, fun h => ?_⟩, by decide, rfl, fun h => ?_⟩
  · exact h.nonempty hrows (by decide)
  · exact h.nonempty hrows (by decide)

end Example

end VoxServer.Progress
