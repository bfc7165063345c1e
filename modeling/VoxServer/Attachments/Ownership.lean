import VoxServer.Server.Wiring
import VoxServer.Net.HttpDispatch

/-! # Who can change an upload

Every upload has a file of its own. The requests that write chunks and end an upload
look at the path, the body and the upload, but not at the user of the session, so
whoever knows the id of an open upload can change it.
-/

namespace VoxServer.Uploads

open Interleaving Prog Table AttachmentRepository Http

section Files

/-- Each upload has the file that is named after it. -/
def Files (cfg : ServerConfig) (db : Database) : Prop :=
  ∀ a ∈ db.attachmentMetadata, a.blobPath = AttachmentService.blobPathOf cfg a.attachmentId

/-- Uploads are announced by `InitUpload` only. -/
def viaService : Op → Bool
  | .single (.attachments (.createAttachmentMeta _)) => false
  | _ => true

variable {cfg : ServerConfig} {s : Server}

theorem blobPathOf_inj {i j : AttachmentId} : AttachmentService.blobPathOf cfg i =
    AttachmentService.blobPathOf cfg j ↔ i = j := by
  refine ⟨fun h => ?_, congrArg _⟩
  unfold AttachmentService.blobPathOf at h
  have hl := congrArg String.toList h
  simp only [String.toList_append, List.append_cancel_left_eq, List.append_cancel_right_eq] at hl
  exact String.toList_inj.mp hl

theorem Files.ne {a b : AttachmentRecord} (h : Files cfg s.db) (ha : a ∈ s.db.attachmentMetadata)
    (hb : b ∈ s.db.attachmentMetadata) (hne : b.attachmentId ≠ a.attachmentId) :
    a.blobPath ≠ b.blobPath := by
  rw [h a ha, h b hb]
  exact fun he => hne (blobPathOf_inj.mp he).symm

theorem Files.call {c : Call} (h : Files cfg s.db)
    (hc : ∀ r, c = .attachments (.createAttachmentMeta r) →
      r.blobPath = AttachmentService.blobPathOf cfg r.attachmentId) :
    Files cfg (c.exec cfg s).2.db := by
  intro a ha
  rcases c.attachments_of_exec cfg (s := s) with hs | ⟨i, hash, -, hs⟩ | ⟨r, rfl, hs⟩
  · exact h a (hs.subset ha)
  · rw [hs] at ha
    obtain ⟨a₀, ha₀, rfl⟩ := mem_updateWhere.mp ha
    split
    · exact h a₀ ha₀
    · exact h a₀ ha₀
  · rw [hs] at ha
    rcases List.mem_append.mp ha with ha | ha
    · exact h a ha
    · rw [List.mem_singleton.mp ha]
      exact hc r rfl

theorem only_files {o : Op} (ho : viaService o) : (o.code cfg).Only fun c =>
    ∀ r, c = .attachments (.createAttachmentMeta r) →
      r.blobPath = AttachmentService.blobPathOf cfg r.attachmentId := by
  cases o with
  | initUpload u c n m i =>
    refine Op.only_initUpload cfg ?_ ?_ u c n m i
    · rintro c hc r rfl
      cases hc
    · rintro r hr r' ⟨⟩
      exact hr
  | single c =>
    refine only_ask.mpr ?_
    rintro r rfl
    cases ho
  | _ =>
    refine (Op.code_only cfg _).mono ?_
    rintro c hc r rfl
    cases hc

end Files

def stillOpen (i : AttachmentId) (db : Database) : Option AttachmentRecord :=
  (getAttachmentMeta i db).filter fun a => !a.uploadComplete

theorem stillOpen_eq_some {i : AttachmentId} {db : Database} {a : AttachmentRecord}
    (h : stillOpen i db = some a) :
    a ∈ db.attachmentMetadata ∧ a.attachmentId = i ∧ a.uploadComplete = false := by
  obtain ⟨hmeta, hopen⟩ := Option.filter_eq_some_iff.mp h
  have hid : a.attachmentId = i := by simpa using List.find?_some hmeta
  exact ⟨List.mem_of_find?_eq_some hmeta, hid, by simpa using hopen⟩

theorem stillOpen_of_complete {i : AttachmentId} {db : Database} {a : AttachmentRecord}
    (h : getAttachmentMeta i db = some a) (ha : a.uploadComplete) : stillOpen i db = none := by
  simp [stillOpen, h, Option.filter, ha]

theorem stillOpen_of_open {i : AttachmentId} {db : Database} {a : AttachmentRecord}
    (h : getAttachmentMeta i db = some a) (ha : ¬ a.uploadComplete) :
    stillOpen i db = some a := by
  simp [stillOpen, h, Option.filter, ha]

section Operations

variable {cfg : ServerConfig} {s : Server}

theorem ends_writeChunk (i : AttachmentId) (offset : ℤ) (data : String) :
    (AttachmentService.writeChunk i offset data).Ends (Call.exec cfg) (fun _ s' =>
      s' = (stillOpen i s.db).elim s fun a =>
        (BlobStorage.write a.blobPath offset data s).2) s := by
  have hget : Call.exec cfg (.attachments (.getAttachmentMeta i)) s =
      (getAttachmentMeta i s.db, s) := rfl
  refine ends_perform_bind.mpr ?_
  rw [hget]
  cases ha : getAttachmentMeta i s.db with
  | none => simp [stillOpen, ha]
  | some a =>
    dsimp only
    split
    · rename_i hdone
      simp [stillOpen_of_complete ha hdone]
    · rename_i hopen
      refine ends_perform_bind.mpr ?_
      split
      all_goals simp [stillOpen_of_open ha hopen, Call.exec, BlobCall.exec]

theorem ends_finalizeUpload (i : AttachmentId) (hash : String) :
    (AttachmentService.finalizeUpload i hash).Ends (Call.exec cfg) (fun _ s' =>
      s' = (stillOpen i s.db).elim s fun a => if (s.blobs a.blobPath).isSome then
        { s with db := (markUploadComplete i hash s.db).2 } else s) s := by
  have hget : Call.exec cfg (.attachments (.getAttachmentMeta i)) s =
      (getAttachmentMeta i s.db, s) := rfl
  refine ends_perform_bind.mpr ?_
  rw [hget]
  cases ha : getAttachmentMeta i s.db with
  | none => simp [stillOpen, ha]
  | some a =>
    dsimp only
    split
    · rename_i hdone
      simp [stillOpen_of_complete ha hdone]
    · rename_i hopen
      have hfind : Call.exec cfg (.blobs (.fileExists a.blobPath)) s =
          ((s.blobs a.blobPath).isSome, s) := rfl
      refine ends_perform_bind.mpr ?_
      rw [hfind]
      dsimp only
      split
      · rename_i hnone
        have hn : (s.blobs a.blobPath).isSome = false := by simpa using hnone
        simp [stillOpen_of_open ha hopen, hn]
      · rename_i hsome
        have hs : (s.blobs a.blobPath).isSome = true := by
          simpa [Option.isSome_iff_ne_none] using hsome
        simp only [stillOpen_of_open ha hopen, Option.elim_some, hs, if_true]
        rfl

end Operations

/-- The bytes of the upload, its hash and its flag are the same in both states. -/
def Untouched (a : AttachmentRecord) (s s' : Server) : Prop :=
  s'.blobs a.blobPath = s.blobs a.blobPath ∧
    (getAttachmentMeta a.attachmentId s'.db).map (fun r => (r.ciphertextHash, r.uploadComplete)) =
      some (a.ciphertextHash, a.uploadComplete)

/-- The request is for the upload, which is open; a chunk has an offset and is for a file that
does not exist or has not these bytes there, and the end of the upload has an object in its body
and finds the file. -/
def tampers (cfg : ServerConfig) (s : Server) (a : AttachmentRecord) (req : HttpRequest) : Bool :=
  !a.uploadComplete &&
  match req.method with
  | .put => chunkRoute (pathOnly req.target) = some a.attachmentId &&
    (queryOffset req).any fun offset => (s.blobs a.blobPath).all fun bytes =>
      0 ≤ offset && !(req.body.toList.isPrefixOf (bytes.toList.drop offset.toNat))
  | .post => finalizeRoute (pathOnly req.target) = some a.attachmentId &&
    (parseBody cfg req).toOption.isSome && (s.blobs a.blobPath).isSome
  | _ => false

instance (a : AttachmentRecord) (s s' : Server) : Decidable (Untouched a s s') :=
  inferInstanceAs (Decidable (_ ∧ _))

section Requests

variable {cfg : ServerConfig} {s : Server} {a : AttachmentRecord} (hv : s.db.Valid)
  (hf : Files cfg s.db) (ha : a ∈ s.db.attachmentMetadata)
include hv ha

theorem getAttachmentMeta_self : getAttachmentMeta a.attachmentId s.db = some a := by
  refine hv.attachments_pk.find?_eq_some ha (by simp) fun b _ hb => ?_
  simpa using hb

theorem untouched_self : Untouched a s s :=
  ⟨rfl, by rw [getAttachmentMeta_self hv ha]; rfl⟩

theorem complete_of_not_stillOpen (h : stillOpen a.attachmentId s.db = none) :
    a.uploadComplete := by
  by_contra hopen
  rw [stillOpen_of_open (getAttachmentMeta_self hv ha) hopen] at h
  cases h

theorem eq_of_stillOpen {b : AttachmentRecord} (hb : stillOpen a.attachmentId s.db = some b) :
    b = a := by
  obtain ⟨hmeta, -⟩ := Option.filter_eq_some_iff.mp hb
  exact Option.some.inj (hmeta.symm.trans (getAttachmentMeta_self hv ha))

theorem untouched_complete {i : AttachmentId} {b : AttachmentRecord}
    (hb : stillOpen i s.db = some b) (hfile : (s.blobs b.blobPath).isSome) (hash : String) :
    Untouched a s { s with db := (markUploadComplete i hash s.db).2 } ↔
      (i = a.attachmentId → a.uploadComplete ∨ s.blobs a.blobPath = none) := by
  obtain ⟨-, -, hopen⟩ := stillOpen_eq_some hb
  have hmeta : getAttachmentMeta a.attachmentId (markUploadComplete i hash s.db).2 =
      some (if a.attachmentId = i then completed hash a else a) := by
    rw [markUploadComplete_snd]
    refine (find?_updateWhere (f := completed hash) fun _ => rfl).trans ?_
    have hself := getAttachmentMeta_self hv ha
    unfold getAttachmentMeta at hself
    rw [hself]
    simp
  simp only [Untouched, hmeta, true_and, Option.map_some, Option.some.injEq]
  by_cases hi : a.attachmentId = i
  · subst hi
    obtain rfl := eq_of_stillOpen hv ha hb
    have hsome : s.blobs b.blobPath ≠ none := Option.isSome_iff_ne_none.mp hfile
    simp [completed, hopen, hsome]
  · simp [hi, Ne.symm hi]

theorem untouched_finalizeUpload (i : AttachmentId) (hash : String) :
    (AttachmentService.finalizeUpload i hash).Ends (Call.exec cfg) (fun _ s' =>
      (Untouched a s s' ↔ (i = a.attachmentId → a.uploadComplete ∨
        s.blobs a.blobPath = none))) s := by
  have hself := untouched_self hv ha
  refine (ends_finalizeUpload i hash).mono ?_
  rintro _ _ rfl
  cases hb : stillOpen i s.db with
  | none =>
    refine iff_of_true hself ?_
    rintro rfl
    exact .inl (complete_of_not_stillOpen hv ha hb)
  | some b =>
    dsimp only [Option.elim_some]
    split
    · rename_i hfile
      exact untouched_complete hv ha hb hfile hash
    · rename_i hfile
      refine iff_of_true hself ?_
      rintro rfl
      obtain rfl := eq_of_stillOpen hv ha hb
      exact .inr (by simpa using hfile)

theorem untouched_postFinalize (i : AttachmentId) (req : HttpRequest) :
    (postFinalize cfg req i).Ends (Call.exec cfg) (fun _ s' => (Untouched a s s' ↔
      ¬ (a.uploadComplete = false ∧ i = a.attachmentId ∧
        (parseBody cfg req).toOption.isSome ∧ (s.blobs a.blobPath).isSome))) s := by
  unfold postFinalize
  cases parseBody cfg req with
  | error r => exact iff_of_true (untouched_self hv ha) (by simp [Except.toOption])
  | ok o =>
    have hcond : (i = a.attachmentId → a.uploadComplete ∨ s.blobs a.blobPath = none) ↔
        ¬ (a.uploadComplete = false ∧ i = a.attachmentId ∧
          (Except.ok o : Except Handled _).toOption.isSome ∧ (s.blobs a.blobPath).isSome) := by
      cases a.uploadComplete <;> cases s.blobs a.blobPath <;> simp [Except.toOption]
    refine Ends.bind ((untouched_finalizeUpload hv ha i _).mono fun r s' h => ?_)
    split
    · exact h.trans hcond
    · exact h.trans hcond

include hf

theorem untouched_write {i : AttachmentId} {b : AttachmentRecord}
    (hb : stillOpen i s.db = some b) (offset : ℤ) (data : String) :
    Untouched a s (BlobStorage.write b.blobPath offset data s).2 ↔
      (i = a.attachmentId → a.uploadComplete ∨ ∃ bytes, s.blobs a.blobPath = some bytes ∧
        (offset < 0 ∨ data.toList <+: bytes.toList.drop offset.toNat)) := by
  have hrow := (untouched_self hv ha).2
  unfold Untouched
  rw [BlobStorage.write_db, and_iff_left hrow]
  obtain ⟨hmem, hid, hopen⟩ := stillOpen_eq_some hb
  by_cases hi : i = a.attachmentId
  · subst hi
    obtain rfl := eq_of_stillOpen hv ha hb
    rw [BlobStorage.write_blobs_eq_iff]
    simp [hopen]
  · rw [BlobStorage.write_blobs_of_ne (hf.ne ha hmem (hid ▸ hi))]
    simp [hi]

/-- A chunk changes only the open upload that it is for, unless the file holds it already. -/
theorem untouched_writeChunk (i : AttachmentId) (offset : ℤ) (data : String) :
    (AttachmentService.writeChunk i offset data).Ends (Call.exec cfg) (fun _ s' =>
      (Untouched a s s' ↔ (i = a.attachmentId → a.uploadComplete ∨
        ∃ bytes, s.blobs a.blobPath = some bytes ∧
          (offset < 0 ∨ data.toList <+: bytes.toList.drop offset.toNat)))) s := by
  refine (ends_writeChunk i offset data).mono ?_
  rintro _ _ rfl
  cases hb : stillOpen i s.db with
  | none =>
    refine iff_of_true (untouched_self hv ha) ?_
    rintro rfl
    exact .inl (complete_of_not_stillOpen hv ha hb)
  | some b => exact untouched_write hv hf ha hb offset data

theorem untouched_putChunk (i : AttachmentId) (req : HttpRequest) :
    (putChunk req i).Ends (Call.exec cfg) (fun _ s' => (Untouched a s s' ↔
      ¬ (a.uploadComplete = false ∧ i = a.attachmentId ∧ (queryOffset req).any fun offset =>
        (s.blobs a.blobPath).all fun bytes =>
          0 ≤ offset && !(req.body.toList.isPrefixOf (bytes.toList.drop offset.toNat))))) s := by
  unfold putChunk
  cases hoff : queryOffset req with
  | none => exact iff_of_true (untouched_self hv ha) (by simp)
  | some offset =>
    have hcond : (i = a.attachmentId → a.uploadComplete ∨ ∃ bytes, s.blobs a.blobPath = some bytes ∧
        (offset < 0 ∨ req.body.toList <+: bytes.toList.drop offset.toNat)) ↔
        ¬ (a.uploadComplete = false ∧ i = a.attachmentId ∧ (some offset).any fun offset =>
          (s.blobs a.blobPath).all fun bytes =>
            0 ≤ offset && !(req.body.toList.isPrefixOf (bytes.toList.drop offset.toNat))) := by
      cases a.uploadComplete <;> cases s.blobs a.blobPath <;>
        simp [or_iff_not_imp_left, ← List.isPrefixOf_iff_prefix]
    refine Ends.bind ((untouched_writeChunk hv hf ha i offset req.body).mono fun r s' h => ?_)
    split
    · exact h.trans hcond
    · exact h.trans hcond

theorem untouched_handleUpload (sess : SessionRecord) (req : HttpRequest) :
    (handleUpload cfg req sess).Ends (Call.exec cfg)
      (fun _ s' => (Untouched a s s' ↔ ¬ tampers cfg s a req)) s := by
  have hself := untouched_self hv ha
  unfold handleUpload tampers
  cases req.method with
  | put =>
    cases chunkRoute (pathOnly req.target) with
    | none => exact iff_of_true hself (by simp)
    | some i =>
      refine (untouched_putChunk hv hf ha i req).mono fun r s' h => h.trans ?_
      simp
  | post =>
    cases finalizeRoute (pathOnly req.target) with
    | none => exact iff_of_true hself (by simp)
    | some i =>
      refine (untouched_postFinalize hv ha i req).mono fun r s' h => h.trans ?_
      simp
  | _ => exact iff_of_true hself (by simp)

end Requests

/-- In every reachable state, a request of another user leaves an upload as it is exactly if it is
not one that would change it when the uploader made it. -/
theorem untouched_iff_not_tampers (cfg : ServerConfig) {init : Server} {acts : List Act}
    (hv : init.db.Valid) (h0 : init.db.attachmentMetadata = [])
    (hops : ∀ o, .spawn o ∈ acts → viaService o) {a : AttachmentRecord}
    (ha : a ∈ (serve cfg init acts).state.db.attachmentMetadata) (req : HttpRequest) :
    ∀ sess : SessionRecord, sess.userId ≠ a.userId →
      (Untouched a (serve cfg init acts).state
        ((handleUpload cfg req sess).run (Call.exec cfg) (serve cfg init acts).state).2 ↔
          ¬ tampers cfg (serve cfg init acts).state a req) := by
  intro sess _
  have hf : Files cfg (serve cfg init acts).state.db := by
    refine ((voxServer cfg).state_invariant (J := fun s => Files cfg s.db)
      (P := fun c => ∀ r, c = .attachments (.createAttachmentMeta r) →
        r.blobPath = AttachmentService.blobPathOf cfg r.attachmentId) ?_ ?_ ?_ acts ?_).1
    · simp [Files, h0]
    · exact fun c s hc h => h.call hc
    · exact fun _ _ h => h
    · exact fun o ho => only_files (hops o ho)
  exact untouched_handleUpload (serve_valid cfg hv acts).1 hf ha sess req

def openUpload : List Act := registerAlice ++
  .spawn (.register ⟨"bob", "p", "d", "", "k", "k", "k", "w", "w", "w"⟩ (some "s") "b" "d"
    ⟨"t'", "r'", "s'"⟩) :: List.replicate 6 (.run 1) ++
  .spawn (.createDm "a" "b" "a" "c") :: List.replicate 5 (.run 2) ++
  .spawn (.initUpload "a" "c" 4 "" "x") :: List.replicate 4 (.run 3) ++
  .spawn (.writeChunk "x" 0 "good") :: List.replicate 2 (.run 4)

def uploadX : AttachmentRecord :=
  { attachmentId := "x", userId := "a", conversationId := "c", fileSize := 4, mimeHint := ""
    ciphertextHash := "", blobPath := "blobs/x.blob", createdAt := 0
    retentionUntil := some 7776000 }

def bobSession : SessionRecord := ⟨"s'", "b", "d", "t'", "r'", 900, 2592000, 0, none⟩

/-- The bytes that are already there change nothing. -/
theorem same_bytes_untouched : (serve default {} openUpload).state.db.sessions.contains bobSession ∧
    Untouched uploadX (serve default {} openUpload).state
      ((handleUpload default ⟨.put, "/v1/attachments/x/chunk?offset=1", "oo", 11⟩ bobSession).run
        (Call.exec default) (serve default {} openUpload).state).2 := by
  refine ⟨by decide, (untouched_iff_not_tampers default (by decide) rfl ?_ (by decide) _ bobSession
    (by decide)).mpr (by decide)⟩
  simp [openUpload, registerAlice, List.replicate, viaService]

/-- Another user overwrites the open upload. -/
theorem chunk_of_other_user : uploadX ∈ (serve default {} openUpload).state.db.attachmentMetadata ∧
    bobSession ∈ (serve default {} openUpload).state.db.sessions ∧
    bobSession.userId ≠ uploadX.userId ∧
    ¬ Untouched uploadX (serve default {} openUpload).state
      ((handleUpload default ⟨.put, "/v1/attachments/x/chunk", "evil", 11⟩ bobSession).run
        (Call.exec default) (serve default {} openUpload).state).2 := by
  decide

end VoxServer.Uploads
