import VoxServer.Server.System

/-! # Resuming the history of a conversation

A reader lists the envelopes of a conversation page by page and resumes from its
last cursor. It gets every envelope exactly once as long as each envelope is
stored after the reader's cursor in the order of timestamp and id. The server
does not ensure that: ids within a second are arbitrary, and the timestamp is
read before the envelope is stored.
-/

namespace VoxServer.History

open Table Interleaving EnvelopeRepository

section Reader

variable (conv : ConversationId) (reader : ℕ → Bool)

def listing? (ev : Ev) : Option (String × UInt64) :=
  match ev.call with
  | .envelopes (.listForConversationCursored c cursor limit) =>
    if c = conv ∧ reader ev.tid then some (cursor, limit) else none
  | _ => none

def page? (ev : Ev) : Option EnvelopePage :=
  (listing? conv reader ev).map fun p => listForConversationCursored conv p.1 p.2 ev.pre.db

/-- The cursor that the reader resumes from: the last one that was not empty. -/
def readerCursor (tr : List Ev) : String :=
  (((tr.filterMap (page? conv reader)).map (·.nextCursor)).filter (· ≠ "")).getLast?.getD ""

def returned (tr : List Ev) : List EnvelopeRecord :=
  (tr.filterMap (page? conv reader)).flatMap (·.envelopes)

/-- The protocol of the reader. -/
def Resumes (tr : List Ev) (ev : Ev) : Prop :=
  ∀ p ∈ listing? conv reader ev, p.1 = readerCursor conv reader tr ∧ 1 ≤ p.2.toNat

def stored? (ev : Ev) : Option EnvelopeRecord :=
  match ev.call with
  | .envelopes (.storeEnvelope e) =>
    if (storeEnvelope e ev.pre.db).1 = .ok () then some e else none
  | _ => none

/-- Whether a call of `deleteExpired` finds the envelope expired. -/
def expires (e : EnvelopeRecord) (ev : Ev) : Bool :=
  match ev.call with
  | .envelopes (.deleteExpired now) => expired now e
  | _ => false

def readerPosition (tr : List Ev) : Option (ℤ ×ₗ String) :=
  parseEnvCursor (readerCursor conv reader tr)

/-- An envelope stored in the conversation comes after the reader's position, and no page asks for
2^64 - 1 rows. -/
def StoresAhead (tr : List Ev) (ev : Ev) : Prop :=
  (∀ p ∈ listing? conv reader ev, p.2 ≠ UInt64.ofNat (2 ^ 64 - 1)) ∧
  ∀ e ∈ stored? ev, e.conversationId = conv →
    (readerPosition conv reader tr).all (· < e.position)

/-- The reader got a page without more to come, and nothing was stored in the conversation since. -/
def CaughtUp (tr : List Ev) : Prop :=
  Since (fun ev => ∃ page ∈ page? conv reader ev, page.hasMore = false)
    (fun ev => ∃ e ∈ stored? ev, e.conversationId = conv) tr

instance (tr : List Ev) (ev : Ev) : Decidable (Resumes conv reader tr ev) :=
  inferInstanceAs (Decidable (∀ p ∈ listing? conv reader ev, _))

instance (tr : List Ev) (ev : Ev) : Decidable (StoresAhead conv reader tr ev) :=
  inferInstanceAs (Decidable ((∀ p ∈ listing? conv reader ev, _) ∧ ∀ e ∈ stored? ev, _))

instance (tr : List Ev) : Decidable (CaughtUp conv reader tr) :=
  inferInstanceAs (Decidable (Since _ _ tr))

end Reader

def WellFormed (e : EnvelopeRecord) : Prop :=
  e.envelopeId ≠ "" ∧ -2 ^ 63 ≤ e.serverTimestamp ∧ e.serverTimestamp < 2 ^ 63

instance (e : EnvelopeRecord) : Decidable (WellFormed e) :=
  inferInstanceAs (Decidable (_ ∧ _ ∧ _))

section Storing

variable (cfg : ServerConfig) {i : ℕ} {c : Call} {s : Server} {e : EnvelopeRecord}

theorem mem_exec (h : e ∈ (c.exec cfg s).2.db.encryptedEnvelopes) :
    e ∈ s.db.encryptedEnvelopes ∨ stored? ⟨i, c, s⟩ = some e := by
  cases c with
  | envelopes a =>
    have he := a.exec_effect s.db
    simp only [Call.exec, Call.onDb] at h
    cases hdb : a.exec s.db with | mk r db' =>
    rw [hdb] at h he
    cases he with
    | same => exact .inl h
    | store e' _ hins =>
      obtain ⟨-, -, -, rfl⟩ := insertEnvelope_ok hins
      rcases List.mem_append.mp h with h | h
      · exact .inl h
      · right
        rw [List.mem_singleton.mp h]
        simp only [stored?, storeEnvelope, hins, if_true]
    | addState _ _ _ _ _ hins =>
      obtain ⟨-, -, -, rfl⟩ := insertDeliveryState_ok hins
      exact .inl h
    | delivered => exact .inl h
    | acked => exact .inl h
    | purge => exact .inl h
    | expire => exact .inl (mem_deleteWhere.mp h).1
  | admin a => exact .inl ((Call.exec_reduced cfg rfl).encryptedEnvelopes.subset h)
  | _ =>
    rw [Call.exec_encryptedEnvelopes cfg (by simp) (by simp [Call.isAdmin])] at h
    exact .inl h

theorem mem_exec_of_mem (ha : ¬ c.isAdmin) (h : e ∈ s.db.encryptedEnvelopes) :
    e ∈ (c.exec cfg s).2.db.encryptedEnvelopes ∨
      expires e ⟨i, c, s⟩ := by
  cases c with
  | envelopes a =>
    have he := a.exec_effect s.db
    simp only [Call.exec, Call.onDb]
    cases hdb : a.exec s.db with | mk r db' =>
    rw [hdb] at he
    cases he with
    | same => exact .inl h
    | store e' _ hins =>
      obtain ⟨-, -, -, rfl⟩ := insertEnvelope_ok hins
      exact .inl (List.mem_append_left _ h)
    | addState _ _ _ _ _ hins =>
      obtain ⟨-, -, -, rfl⟩ := insertDeliveryState_ok hins
      exact .inl h
    | delivered => exact .inl h
    | acked => exact .inl h
    | purge => exact .inl h
    | expire now =>
      by_cases hexp : expired now e
      · exact .inr hexp
      · exact .inl (mem_deleteWhere.mpr ⟨h, hexp⟩)
  | admin a => exact absurd rfl ha
  | _ =>
    rw [Call.exec_encryptedEnvelopes cfg (by simp) (by simp [Call.isAdmin])]
    exact .inl h

theorem mem_exec_of_stored (h : stored? ⟨i, c, s⟩ = some e) :
    e ∈ (c.exec cfg s).2.db.encryptedEnvelopes := by
  unfold stored? at h
  split at h
  · rename_i e' hc
    obtain rfl : c = .envelopes (.storeEnvelope e') := hc
    split at h
    · rename_i hok
      cases h
      obtain ⟨-, -, -, he⟩ := insertEnvelope_ok (storeEnvelope_ok hok)
      simp only [Call.exec, Call.onDb, EnvelopeCall.exec, he]
      simp
    · cases h
  · cases h

end Storing

section Reader

variable {conv : ConversationId} {reader : ℕ → Bool} {tr : List Ev} {db db' : Database}
  {pos : Option (ℤ ×ₗ String)}

/-- What the reader has got, and where it stands. -/
structure Reads (conv : ConversationId) (reader : ℕ → Bool) (tr : List Ev) (db : Database)
    (pos : Option (ℤ ×ₗ String)) : Prop where
  resumes : ResumesAt (readerCursor conv reader tr) pos
  nodup : (returned conv reader tr).Nodup
  before : ∀ e ∈ returned conv reader tr, ¬ pos.all (· < e.position)
  complete : ∀ e ∈ conversationRows conv db, ¬ pos.all (· < e.position) →
    e ∈ returned conv reader tr
  reached : CaughtUp conv reader tr → ∀ e ∈ conversationRows conv db, ¬ pos.all (· < e.position)

theorem Reads.position_eq (h : Reads conv reader tr db pos) :
    readerPosition conv reader tr = pos := by
  have hr := h.resumes
  unfold readerPosition
  cases pos with
  | none =>
    have hr : readerCursor conv reader tr = "" := hr
    rw [hr]; rfl
  | some p => exact hr

theorem Reads.other {ev : Ev} (h : Reads conv reader tr db pos)
    (hpage : page? conv reader ev = none)
    (hmem : ∀ e ∈ db'.encryptedEnvelopes, e ∈ db.encryptedEnvelopes ∨ stored? ev = some e)
    (hahead : ∀ e ∈ stored? ev, e.conversationId = conv → pos.all (· < e.position)) :
    Reads conv reader (tr ++ [ev]) db' pos := by
  have hf : (tr ++ [ev]).filterMap (page? conv reader) = tr.filterMap (page? conv reader) := by
    simp [hpage]
  have hcur : readerCursor conv reader (tr ++ [ev]) = readerCursor conv reader tr := by
    rw [readerCursor, hf, readerCursor]
  have hret : returned conv reader (tr ++ [ev]) = returned conv reader tr := by
    rw [returned, hf, returned]
  refine ⟨hcur ▸ h.resumes, hret ▸ h.nodup, hret ▸ h.before, ?_, ?_⟩
  · intro e he hle
    rw [hret]
    obtain ⟨hm, hc⟩ := mem_conversationRows.mp he
    rcases hmem e hm with hm | hst
    · exact h.complete e (mem_conversationRows.mpr ⟨hm, hc⟩) hle
    · exact absurd (hahead e hst hc) hle
  · intro hcaught e he
    obtain ⟨hm, hc⟩ := mem_conversationRows.mp he
    rcases since_snoc.mp hcaught with ⟨page, hp, -⟩ | ⟨hold, hno⟩
    · rw [hpage] at hp
      cases hp
    · rcases hmem e hm with hm | hst
      · exact h.reached hold e (mem_conversationRows.mpr ⟨hm, hc⟩)
      · exact absurd ⟨e, hst, hc⟩ hno

theorem reader_of_page (tr : List Ev) {ev : Ev} {page : EnvelopePage}
    (h : page? conv reader ev = some page) :
    returned conv reader (tr ++ [ev]) = returned conv reader tr ++ page.envelopes ∧
    readerCursor conv reader (tr ++ [ev]) =
      if page.nextCursor = "" then readerCursor conv reader tr else page.nextCursor := by
  have hf : (tr ++ [ev]).filterMap (page? conv reader) =
      tr.filterMap (page? conv reader) ++ [page] := by
    simp [h]
  constructor
  · rw [returned, hf, List.flatMap_append]
    simp [returned]
  · rw [readerCursor, hf, List.map_append, List.filter_append]
    split <;> simp [readerCursor, *]

theorem not_all_lt_iff {p : ℤ ×ₗ String} {e : EnvelopeRecord} :
    ¬ (some p).all (· < e.position) ↔ e.position ≤ p := by
  simp

theorem le_of_not_all_lt {p : ℤ ×ₗ String} {e : EnvelopeRecord} (hp : pos.all (· < p))
    (he : ¬ pos.all (· < e.position)) : e.position ≤ p := by
  cases pos with
  | none => simp at he
  | some q =>
    have hlt : q < p := by simpa using hp
    exact (not_all_lt_iff.mp he).trans hlt.le

theorem Reads.page_of_nil {ev : Ev} {page : EnvelopePage} (h : Reads conv reader tr db pos)
    (hpage : page? conv reader ev = some page) (hnil : page.envelopes = [])
    (hnext : page.nextCursor = "")
    (hlast : page.hasMore = false →
      ∀ e ∈ conversationRows conv db, ¬ pos.all (· < e.position)) :
    Reads conv reader (tr ++ [ev]) db pos := by
  obtain ⟨hret, hcur⟩ := reader_of_page tr hpage
  rw [hnil, List.append_nil] at hret
  rw [if_pos hnext] at hcur
  refine ⟨hcur ▸ h.resumes, hret ▸ h.nodup, hret ▸ h.before, hret ▸ h.complete, ?_⟩
  intro hcaught
  rcases since_snoc.mp hcaught with ⟨page', hp', hdone⟩ | ⟨hold, -⟩
  · obtain rfl := Option.some.inj (hpage.symm.trans hp')
    exact hlast hdone
  · exact h.reached hold

theorem Reads.page_upto {ev : Ev} {page : EnvelopePage} {p : ℤ ×ₗ String}
    (h : Reads conv reader tr db pos) (hpage : page? conv reader ev = some page)
    (hnext : parseEnvCursor page.nextCursor = some p) (hpos : pos.all (· < p))
    (hnodup : page.envelopes.Nodup)
    (hmem : ∀ e, e ∈ page.envelopes ↔
      e ∈ conversationRows conv db ∧ pos.all (· < e.position) ∧ e.position ≤ p)
    (hlast : page.hasMore = false → ∀ e ∈ conversationRows conv db, e.position ≤ p) :
    Reads conv reader (tr ++ [ev]) db (some p) := by
  obtain ⟨hret, hcur⟩ := reader_of_page tr hpage
  have hne : page.nextCursor ≠ "" := by
    intro he
    rw [he] at hnext
    cases hnext
  rw [if_neg hne] at hcur
  refine ⟨hcur ▸ hnext, ?_, ?_, ?_, ?_⟩
  · rw [hret, List.nodup_append']
    exact ⟨h.nodup, hnodup, fun e he he' => h.before e he ((hmem e).mp he').2.1⟩
  · intro e he
    rw [not_all_lt_iff]
    rw [hret] at he
    rcases List.mem_append.mp he with he | he
    · exact le_of_not_all_lt hpos (h.before e he)
    · exact ((hmem e).mp he).2.2
  · intro e he hle
    rw [hret]
    by_cases hp : pos.all (· < e.position)
    · exact List.mem_append_right _ ((hmem e).mpr ⟨he, hp, not_all_lt_iff.mp hle⟩)
    · exact List.mem_append_left _ (h.complete e he hp)
  · intro hcaught e he
    rw [not_all_lt_iff]
    rcases since_snoc.mp hcaught with ⟨page', hp', hdone⟩ | ⟨hold, -⟩
    · obtain rfl := Option.some.inj (hpage.symm.trans hp')
      exact hlast hdone e he
    · exact le_of_not_all_lt hpos (h.reached hold e he)

/-- A page takes the reader to its last envelope, and to the end if it is the last page. -/
theorem Reads.page {i : ℕ} {c : Call} {s : Server} {limit : UInt64}
    (h : Reads conv reader tr s.db pos) (hv : s.db.Valid)
    (hwf : ∀ e ∈ s.db.encryptedEnvelopes, WellFormed e)
    (hl : listing? conv reader ⟨i, c, s⟩ = some (readerCursor conv reader tr, limit))
    (hlim : limit ≠ UInt64.ofNat (2 ^ 64 - 1)) :
    ∃ pos', Reads conv reader (tr ++ [⟨i, c, s⟩]) s.db pos' := by
  have hu : UniqueOn EnvelopeRecord.position (conversationRows conv s.db) :=
    uniqueOn_position (hv.envelopes_pk.sublist (List.filter_sublist.map _))
  have hpage : page? conv reader ⟨i, c, s⟩ =
      some (cursoredPage (readerCursor conv reader tr) limit (conversationRows conv s.db)) := by
    rw [page?, hl]; rfl
  obtain ⟨-, -, hnext⟩ := cursoredPage_eq limit (conversationRows conv s.db) h.resumes
  cases hgl : (cursoredPage (readerCursor conv reader tr) limit
      (conversationRows conv s.db)).envelopes.getLast? with
  | none =>
    have hnil := List.getLast?_eq_none_iff.mp hgl
    rw [hgl] at hnext
    refine ⟨pos, h.page_of_nil hpage hnil hnext fun hdone e he hp => ?_⟩
    have := mem_cursoredPage_of_not_hasMore hlim h.resumes hdone he hp
    rw [hnil] at this
    cases this
  | some l =>
    obtain ⟨hrow, hlt⟩ := mem_cursoredPage h.resumes (List.mem_of_getLast? hgl)
    obtain ⟨hid, hts⟩ := hwf l (mem_conversationRows.mp hrow).1
    rw [hgl] at hnext
    have hmem := fun e he => mem_cursoredPage_iff (e := e) hu h.resumes hgl he
    refine ⟨some l.position, h.page_upto hpage (hnext ▸ parseEnvCursor_make hts hid) hlt
      (nodup_cursoredPage hu h.resumes) ?_ ?_⟩
    · intro e
      constructor
      · intro he
        have hrow := (mem_cursoredPage h.resumes he).1
        exact ⟨hrow, (hmem e hrow).mp he⟩
      · rintro ⟨hrow, he⟩
        exact (hmem e hrow).mpr he
    · intro hdone e he
      by_cases hp : pos.all (· < e.position)
      · exact ((hmem e he).mp (mem_cursoredPage_of_not_hasMore hlim h.resumes hdone he hp)).2
      · exact le_of_not_all_lt hlt hp

theorem reads_nil {db : Database} : Reads conv reader [] db none :=
  ⟨rfl, by simp [returned], by simp [returned], by simp, fun hc => absurd hc not_since_nil⟩

theorem Reads.step (cfg : ServerConfig) {s : Server} (h : Reads conv reader tr s.db pos)
    (hv : s.db.Valid) (hwf : ∀ e ∈ s.db.encryptedEnvelopes, WellFormed e) (i : ℕ) (c : Call)
    (hres : Resumes conv reader tr ⟨i, c, s⟩) (hahead : StoresAhead conv reader tr ⟨i, c, s⟩) :
    ∃ pos', Reads conv reader (tr ++ [⟨i, c, s⟩]) (c.exec cfg s).2.db pos' := by
  cases hl : listing? conv reader ⟨i, c, s⟩ with
  | none =>
    have hpage : page? conv reader ⟨i, c, s⟩ = none := by rw [page?, hl]; rfl
    refine ⟨pos, h.other hpage (fun e he => mem_exec cfg he) fun e he hc => ?_⟩
    exact h.position_eq ▸ hahead.2 e he hc
  | some q =>
    obtain ⟨cursor, limit⟩ := q
    obtain ⟨rfl, -⟩ := hres (cursor, limit) hl
    have hdb : (c.exec cfg s).2.db = s.db := by
      unfold listing? at hl
      split at hl
      · rename_i hc
        obtain rfl : c = _ := hc
        rfl
      · cases hl
    rw [hdb]
    exact h.page hv hwf hl (hahead.1 _ hl)

end Reader

theorem stored_or_expired (cfg : ServerConfig) {init : Server} (acts : List Act)
    (hadmin : ∀ ev ∈ (serve cfg init acts).trace, ¬ ev.call.isAdmin) {e : EnvelopeRecord}
    (he : e ∈ init.db.encryptedEnvelopes ∨
      ∃ ev ∈ (serve cfg init acts).trace, stored? ev = some e) :
    (∃ ev ∈ (serve cfg init acts).trace, expires e ev) ∨
      e ∈ (serve cfg init acts).state.db.encryptedEnvelopes := by
  revert he
  refine ((voxServer cfg).always_invariant (always_of_mem hadmin)
    (I := fun tr s => (e ∈ init.db.encryptedEnvelopes ∨ ∃ ev ∈ tr, stored? ev = some e) →
      (∃ ev ∈ tr, expires e ev) ∨ e ∈ s.db.encryptedEnvelopes) ?_ ?_ (fun _ _ _ h => h)).1
  · rintro (he | ⟨ev, hev, -⟩)
    · exact .inr he
    · cases hev
  · intro tr s i c hc ih he
    have hold : (e ∈ init.db.encryptedEnvelopes ∨ ∃ ev ∈ tr, stored? ev = some e) ∨
        stored? ⟨i, c, s⟩ = some e := by
      rcases he with he | ⟨ev, hev, hst⟩
      · exact .inl (.inl he)
      · rcases List.mem_append.mp hev with hev | hev
        · exact .inl (.inr ⟨ev, hev, hst⟩)
        · rw [List.mem_singleton.mp hev] at hst
          exact .inr hst
    rcases hold with hold | hst
    · rcases ih hold with ⟨ev, hev, hexp⟩ | hmem
      · exact .inl ⟨ev, List.mem_append_left _ hev, hexp⟩
      · rcases mem_exec_of_mem cfg hc hmem with hmem | hexp
        · exact .inr hmem
        · exact .inl ⟨⟨i, c, s⟩, by simp, hexp⟩
    · exact .inr (mem_exec_of_stored cfg hst)

/-- Resuming misses nothing while envelopes are stored ahead of the reader: when the reader has got
a page without more to come and nothing was stored in the conversation since, it has got every
envelope that was ever stored in the conversation and has not expired exactly once. -/
theorem history_resume_complete (cfg : ServerConfig) (init : Server) (acts : List Act)
    (conv : ConversationId) (reader : ℕ → Bool) (hv : init.db.Valid)
    (hinit : ∀ e ∈ init.db.encryptedEnvelopes, WellFormed e)
    (hwf : ∀ ev ∈ (serve cfg init acts).trace, ∀ e ∈ stored? ev, WellFormed e)
    (hadmin : ∀ ev ∈ (serve cfg init acts).trace, ¬ ev.call.isAdmin)
    (hres : Always (Resumes conv reader) (serve cfg init acts).trace)
    (hahead : Always (StoresAhead conv reader) (serve cfg init acts).trace)
    (hdone : CaughtUp conv reader (serve cfg init acts).trace) :
    ∀ e, e.conversationId = conv → (e ∈ init.db.encryptedEnvelopes ∨
        ∃ ev ∈ (serve cfg init acts).trace, stored? ev = some e) →
      (∃ ev ∈ (serve cfg init acts).trace, expires e ev) ∨
        (returned conv reader (serve cfg init acts).trace).count e = 1 := by
  obtain ⟨⟨-, -, pos, hreads⟩, -⟩ := (voxServer cfg).always_invariant
    ((always_of_mem hwf).and (hres.and hahead))
    (I := fun tr s => s.db.Valid ∧ (∀ e ∈ s.db.encryptedEnvelopes, WellFormed e) ∧
      ∃ pos, Reads conv reader tr s.db pos) ⟨hv, hinit, none, reads_nil⟩
    (fun tr s i c ⟨hw, hq⟩ ⟨hvs, hws, pos, hreads⟩ => ⟨c.exec_valid cfg hvs,
      fun e he => (mem_exec cfg he).elim (hws e) (hw e), hreads.step cfg hvs hws i c hq.1 hq.2⟩)
    (fun _ _ _ h => h)
  intro e hc he
  rcases stored_or_expired cfg acts hadmin he with hexp | hmem
  · exact .inl hexp
  · have hrow : e ∈ conversationRows conv (serve cfg init acts).state.db :=
      mem_conversationRows.mpr ⟨hmem, hc⟩
    exact .inr (List.count_eq_one_of_mem hreads.nodup
      (hreads.complete e hrow (hreads.reached hdone e hrow)))

def oneRoom : Server where
  db :=
    { users := [{ (default : UserRecord) with userId := "u" }]
      devices := [{ (default : DeviceRecord) with deviceId := "d", userId := "u" }]
      conversations := [⟨"c", .dm, "u", 0, "", 0⟩]
      conversationMembers := [⟨"c", "u", .member, 0, none⟩] }
  clock := 100

def sendAndList (first second : EnvelopeId) : List Act :=
  .spawn (.sendEnvelope ⟨"u", "d", "c", "x", first, 0, none⟩ "") :: List.replicate 8 (.run 0) ++
  [.spawn (.single (.envelopes (.listForConversationCursored "c" "" 10))), .run 1] ++
  .spawn (.sendEnvelope ⟨"u", "d", "c", "x", second, 0, none⟩ "") :: List.replicate 8 (.run 2) ++
  [.spawn (.single (.envelopes
    (.listForConversationCursored "c" ("100|" ++ first) 10))), .run 3]

def oddReader (i : ℕ) : Bool := i % 2 = 1

theorem sendAndList_complete :
    (returned "c" oddReader (serve default oneRoom (sendAndList "a" "b")).trace).count
      ⟨"b", "c", "u", "d", "x", 100, 0, some 7776100, none⟩ = 1 := by
  have h := history_resume_complete default oneRoom (sendAndList "a" "b") "c" oddReader
    (by decide) (by decide) (by decide) (by decide) (by decide) (by decide) (by decide)
    ⟨"b", "c", "u", "d", "x", 100, 0, some 7776100, none⟩ rfl (.inr (by decide))
  exact h.resolve_left (by decide)

/-- The id of the second envelope is smaller, so the reader that has caught up never gets it. -/
theorem sendAndList_missed :
    oneRoom.db.Valid ∧
    Always (Resumes "c" oddReader) (serve default oneRoom (sendAndList "b" "a")).trace ∧
    CaughtUp "c" oddReader (serve default oneRoom (sendAndList "b" "a")).trace ∧
    ∃ e, e.conversationId = "c" ∧ WellFormed e ∧
      (∃ ev ∈ (serve default oneRoom (sendAndList "b" "a")).trace, stored? ev = some e) ∧
      (∀ ev ∈ (serve default oneRoom (sendAndList "b" "a")).trace, ¬ expires e ev) ∧
      e ∉ returned "c" oddReader (serve default oneRoom (sendAndList "b" "a")).trace := by
  refine ⟨by decide, by decide, by decide, ?_⟩
  exact ⟨⟨"a", "c", "u", "d", "x", 100, 0, some 7776100, none⟩, rfl, by decide, by decide,
    by decide, by decide⟩

end VoxServer.History
