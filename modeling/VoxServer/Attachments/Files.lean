import VoxServer.Attachments.Ownership

/-! # Files without an upload

What each operation on uploads does to the rows and to the files. Chunks go to the
file of a row, and expiry removes the files of the rows that it deletes. Deleting a
user removes only the rows, so the files of their uploads are left behind.
-/

namespace VoxServer.Uploads

open Interleaving Prog Table AttachmentRepository

section Operations

variable {cfg : ServerConfig} {s : Server}

variable (cfg s) in
theorem exec_createAttachmentMeta (r : AttachmentRecord) :
    (Call.exec cfg (.attachments (.createAttachmentMeta r)) s).2 = s ∨
      ∃ db', insertAttachment r s.db = .ok db' ∧
        (Call.exec cfg (.attachments (.createAttachmentMeta r)) s).2 = { s with db := db' } := by
  simp only [Call.exec, Call.onDb, AttachmentCall.exec, createAttachmentMeta]
  cases h : insertAttachment r s.db with
  | error e => exact .inl rfl
  | ok db' => exact .inr ⟨db', rfl, rfl⟩

/-- An upload is announced with a new id, the file named after it, and a positive size within the
limit; or nothing changes. -/
theorem ends_initUpload (u : UserId) (c : ConversationId) (n : ℤ) (mime uuid : String) :
    (AttachmentService.initUpload cfg u c n mime uuid).Ends (Call.exec cfg) (fun _ s' => s' = s ∨
      ∃ r db', insertAttachment r s.db = .ok db' ∧ s' = { s with db := db' } ∧
        r.blobPath = AttachmentService.blobPathOf cfg r.attachmentId ∧
        0 < r.fileSize ∧ r.fileSize ≤ cfg.maxUploadSizeBytes) s := by
  unfold AttachmentService.initUpload
  split
  · exact .inl rfl
  split
  · exact .inl rfl
  rename_i hpos hmax
  refine ends_perform_bind.mpr ?_
  split
  · exact .inl rfl
  refine ends_perform_bind.mpr ?_
  split
  · exact .inl rfl
  refine ends_perform_bind.mpr (ends_perform_bind.mpr ?_)
  split
  all_goals
    refine (exec_createAttachmentMeta cfg s _).imp_right ?_
    rintro ⟨db', hins, he⟩
    exact ⟨_, db', hins, he, rfl, not_le.mp hpos,
      (not_lt.mp hmax).trans (toInt64_natCast_le _)⟩

theorem ends_removeBlobs (as : List AttachmentRecord) :
    (AttachmentService.removeBlobs as).Ends (Call.exec cfg) (fun _ s' => s' = { s with
      blobs := fun p => if ∃ a ∈ as, a.blobPath = p then none else s.blobs p }) s := by
  induction as generalizing s with
  | nil => simp [AttachmentService.removeBlobs]
  | cons a as ih =>
    refine ends_perform_bind.mpr (ih.mono ?_)
    rintro - s' rfl
    simp only [Call.exec, BlobCall.exec, BlobStorage.remove]
    congr 1
    funext p
    by_cases hp : a.blobPath = p
    · simp [hp]
    · simp [hp, Function.update_of_ne (Ne.symm hp)]

/-- The server after expiry: the rows are gone, and so are their files. -/
def withoutExpired (s : Server) : Server :=
  let gone := s.db.attachmentMetadata.filter (expired s.clock)
  { s with
    db := { s.db with
      attachmentMetadata := deleteWhere (expired s.clock) s.db.attachmentMetadata }
    blobs := fun p => if ∃ a ∈ gone, a.blobPath = p then none else s.blobs p }

theorem ends_deleteExpired : AttachmentService.deleteExpired.Ends (Call.exec cfg)
    (fun _ s' => s' = withoutExpired s) s := by
  refine ends_perform_bind.mpr (ends_perform_bind.mpr (Ends.bind ?_))
  refine (ends_removeBlobs _).mono ?_
  rintro - s' rfl
  have hpaths : ∀ p, (∃ a ∈ getExpired s.clock s.db, a.blobPath = p) ↔
      ∃ a ∈ s.db.attachmentMetadata.filter (expired s.clock), a.blobPath = p := by
    simp [getExpired]
  simp only [Ends, perform, run_call, run_ret, Call.exec, Call.onDb, AttachmentCall.exec,
    deleteExpired, withoutExpired, hpaths]

theorem ends_deleteUser (u : UserId) : (Handlers.deleteUser u).Ends (Call.exec cfg) (fun _ s' =>
    s' = match UserRepository.findById u s.db, AdminService.deleteUserRows u s.db with
      | some _, .ok db' => { s with db := db' }
      | _, _ => s) s := by
  have hget : Call.exec cfg (.users (.findById u)) s = (UserRepository.findById u s.db, s) := rfl
  refine ends_perform_bind.mpr ?_
  rw [hget]
  cases UserRepository.findById u s.db with
  | none => rfl
  | some r =>
    cases h : AdminService.deleteUserRows u s.db with
    | error e => simp [Ends, perform, Call.exec, Call.onDb, AdminCall.exec, h]
    | ok db' => simp [Ends, perform, Call.exec, Call.onDb, AdminCall.exec, h]

end Operations

def managesFiles : Op → Bool
  | .initUpload .. => true
  | .writeChunk .. => true
  | .finalizeUpload .. => true
  | .deleteExpiredAttachments => true
  | .deleteUser _ => true
  | _ => false

theorem viaService_of_managesFiles {o : Op} (h : managesFiles o) : viaService o := by
  cases o with
  | single c => cases h
  | _ => rfl

/-- No file is without an upload, and no complete upload is without its file. -/
structure Kept (s : Server) : Prop where
  owned : ∀ p, (s.blobs p).isSome → ∃ a ∈ s.db.attachmentMetadata, a.blobPath = p
  present : ∀ a ∈ s.db.attachmentMetadata, a.uploadComplete → (s.blobs a.blobPath).isSome

/-- A user who is deleted has uploaded nothing to a file that is still there. -/
def leavesNoFile (s : Server) : Op ⊕ Timestamp → Bool
  | .inl (.deleteUser u) => (AdminService.deleteUserRows u s.db).toOption.isSome →
    ∀ a ∈ s.db.attachmentMetadata, a.userId = u → s.blobs a.blobPath = none
  | _ => true

/-- The database has its keys and references, and each upload the file named after it. -/
structure Placed (cfg : ServerConfig) (s : Server) : Prop where
  valid : s.db.Valid
  files : Files cfg s.db

section Kept

variable {cfg : ServerConfig} {s : Server}

theorem Placed.perform {o : Op} (h : Placed cfg s) (ho : viaService o) :
    (o.code cfg).Ends (Call.exec cfg) (fun _ => Placed cfg) s := by
  apply (only_files ho).ends _ h
  intro c s hc h
  exact ⟨c.exec_valid cfg h.valid, h.files.call hc⟩

theorem Placed.eq_of_blobPath {a b : AttachmentRecord} (h : Placed cfg s)
    (ha : a ∈ s.db.attachmentMetadata) (hb : b ∈ s.db.attachmentMetadata)
    (hp : a.blobPath = b.blobPath) : a = b := by
  apply h.valid.attachments_pk.eq_of_mem ha hb
  rw [h.files a ha, h.files b hb] at hp
  exact blobPathOf_inj.mp hp

theorem Kept.announce {r : AttachmentRecord} {db' : Database} (h : Kept s)
    (hins : insertAttachment r s.db = .ok db') : Kept { s with db := db' } := by
  obtain ⟨-, -, -, rfl⟩ := insertAttachment_ok hins
  constructor
  · intro p hp
    obtain ⟨a, ha, hpath⟩ := h.owned p hp
    exact ⟨a, List.mem_append_left _ ha, hpath⟩
  · intro a ha hdone
    rcases List.mem_append.mp ha with ha | ha
    · exact h.present a ha hdone
    · rw [List.mem_singleton.mp ha] at hdone
      cases hdone

theorem Kept.write {a : AttachmentRecord} (h : Kept s) (ha : a ∈ s.db.attachmentMetadata)
    (offset : ℤ) (data : String) : Kept (BlobStorage.write a.blobPath offset data s).2 := by
  have hself : ((BlobStorage.write a.blobPath offset data s).2.blobs a.blobPath).isSome :=
    BlobStorage.isSome_write_blobs a.blobPath offset data s
  constructor
  · intro p hp
    rw [BlobStorage.write_db]
    by_cases hpa : p = a.blobPath
    · exact ⟨a, ha, hpa.symm⟩
    · rw [BlobStorage.write_blobs_of_ne hpa] at hp
      exact h.owned p hp
  · intro b hb hdone
    rw [BlobStorage.write_db] at hb
    by_cases hba : b.blobPath = a.blobPath
    · rwa [hba]
    · rw [BlobStorage.write_blobs_of_ne hba]
      exact h.present b hb hdone

theorem Kept.complete {i : AttachmentId} (h : Kept s) (hash : String)
    (hfile : ∀ a ∈ s.db.attachmentMetadata, a.attachmentId = i → (s.blobs a.blobPath).isSome) :
    Kept { s with db := (markUploadComplete i hash s.db).2 } := by
  rw [markUploadComplete_snd]
  constructor
  · intro p hp
    obtain ⟨a, ha, hpath⟩ := h.owned p hp
    refine ⟨_, mem_updateWhere.mpr ⟨a, ha, rfl⟩, ?_⟩
    split
    · exact hpath
    · exact hpath
  · intro a ha hdone
    obtain ⟨b, hb, rfl⟩ := mem_updateWhere.mp ha
    by_cases hi : b.attachmentId = i
    · rw [if_pos (decide_eq_true hi)]
      exact hfile b hb hi
    · rw [if_neg (by simpa using hi)] at hdone ⊢
      exact h.present b hb hdone

theorem Kept.expire (h : Kept s) (hpl : Placed cfg s) : Kept (withoutExpired s) := by
  have hgone : ∀ p, (s.blobs p).isSome ∧ (∀ a ∈ s.db.attachmentMetadata, expired s.clock a →
      a.blobPath ≠ p) ↔ ((withoutExpired s).blobs p).isSome := by
    intro p
    simp only [withoutExpired]
    split
    · rename_i hex
      obtain ⟨a, ha, hp⟩ := hex
      obtain ⟨ha, hexp⟩ := List.mem_filter.mp ha
      exact iff_of_false (fun hall => hall.2 a ha hexp hp) (by simp)
    · rename_i hne
      exact and_iff_left fun a ha hexp hp => hne ⟨a, List.mem_filter.mpr ⟨ha, hexp⟩, hp⟩
  constructor
  · intro p hp
    obtain ⟨hsome, hne⟩ := (hgone p).mpr hp
    obtain ⟨a, ha, hpath⟩ := h.owned p hsome
    exact ⟨a, mem_deleteWhere.mpr ⟨ha, fun hexp => hne a ha hexp hpath⟩, hpath⟩
  · intro a ha hdone
    obtain ⟨ha, hkept⟩ := mem_deleteWhere.mp ha
    refine (hgone _).mp ⟨h.present a ha hdone, fun b hb hexp hp => hkept ?_⟩
    rwa [← hpl.eq_of_blobPath hb ha hp]

theorem kept_withoutUser_iff (h : Kept s) (hpl : Placed cfg s) (u : UserId) :
    Kept { s with db := AdminService.withoutUser u s.db } ↔
      ∀ a ∈ s.db.attachmentMetadata, a.userId = u → s.blobs a.blobPath = none := by
  constructor
  · intro h' a ha hu
    by_contra hsome
    obtain ⟨b, hb, hp⟩ := h'.owned a.blobPath (Option.isSome_iff_ne_none.mpr hsome)
    obtain ⟨hb, hkept⟩ := mem_deleteWhere.mp hb
    rw [hpl.eq_of_blobPath hb ha hp] at hkept
    exact hkept (decide_eq_true hu)
  · intro hnone
    constructor
    · intro p hp
      obtain ⟨a, ha, rfl⟩ := h.owned p hp
      refine ⟨a, mem_deleteWhere.mpr ⟨ha, fun hu => ?_⟩, rfl⟩
      rw [hnone a ha (of_decide_eq_true hu)] at hp
      cases hp
    · intro a ha hdone
      exact h.present a (mem_deleteWhere.mp ha).1 hdone

theorem kept_deleteUser_iff (h : Kept s) (hpl : Placed cfg s) (u : UserId) :
    (Handlers.deleteUser u).Ends (Call.exec cfg)
      (fun _ s' => (Kept s' ↔ leavesNoFile s (.inl (.deleteUser u)))) s := by
  refine (ends_deleteUser u).mono ?_
  rintro - s' rfl
  simp only [leavesNoFile, decide_eq_true_eq]
  cases hrows : AdminService.deleteUserRows u s.db with
  | error e =>
    have hsame : Kept s ↔ True := iff_true_intro h
    cases UserRepository.findById u s.db <;> simp [hsame, Except.toOption]
  | ok db' =>
    obtain ⟨rfl, -⟩ := AdminService.deleteUserRows_ok hrows
    cases hu : UserRepository.findById u s.db with
    | none =>
      -- an unknown user has no uploads
      refine iff_of_true h fun _ a ha hau => ?_
      obtain ⟨r, hr, hru⟩ := hpl.valid.attachments_user a ha
      have hnot := List.find?_eq_none.mp hu r hr
      exact (hnot (decide_eq_true (hru.trans hau))).elim
    | some r =>
      simp only [Except.toOption, Option.isSome_some, forall_const]
      exact kept_withoutUser_iff h hpl u

theorem kept_perform_iff {o : Op} (h : Kept s) (hpl : Placed cfg s) (ho : managesFiles o) :
    (o.code cfg).Ends (Call.exec cfg) (fun _ s' => (Kept s' ↔ leavesNoFile s (.inl o))) s := by
  cases o with
  | initUpload u c n m i =>
    refine (ends_initUpload u c n m i).mono ?_
    rintro - s' (rfl | ⟨r, db', hins, rfl, -⟩)
    · exact iff_of_true h rfl
    · exact iff_of_true (h.announce hins) rfl
  | writeChunk i offset data =>
    refine (ends_writeChunk i offset data).mono ?_
    rintro - s' rfl
    refine iff_of_true ?_ rfl
    cases ha : stillOpen i s.db with
    | none => exact h
    | some a => exact h.write (stillOpen_eq_some ha).1 offset data
  | finalizeUpload i hash =>
    refine (ends_finalizeUpload i hash).mono ?_
    rintro - s' rfl
    refine iff_of_true ?_ rfl
    cases ha : stillOpen i s.db with
    | none => exact h
    | some a =>
      obtain ⟨ha, hid, -⟩ := stillOpen_eq_some ha
      simp only [Option.elim_some]
      split
      · rename_i hfile
        refine h.complete hash fun b hb hbi => ?_
        rwa [hpl.valid.attachments_pk.eq_of_mem hb ha (hbi.trans hid.symm)]
      · exact h
  | deleteExpiredAttachments =>
    refine ends_deleteExpired.mono ?_
    rintro - s' rfl
    exact iff_of_true (h.expire hpl) rfl
  | deleteUser u => exact kept_deleteUser_iff h hpl u
  | _ => cases ho

end Kept

/-- Through a sequence of operations on uploads, no file is without an upload and no complete
upload without its file, exactly if no user is deleted who has uploaded to a file that is still
there. -/
theorem kept_iff_leavesNoFile (cfg : ServerConfig) {init : Server} (hv : init.db.Valid)
    (h0 : init.db.attachmentMetadata = []) (hb : ∀ p, init.blobs p = none)
    {acts : List (Op ⊕ Timestamp)} (hops : ∀ o, .inl o ∈ acts → managesFiles o) :
    Machine.Throughout (voxServer cfg).atOnce Kept init acts ↔
      Machine.always (voxServer cfg).atOnce leavesNoFile init acts := by
  refine (voxServer cfg).atOnce_throughout_iff (I := Placed cfg) ?_ ?_ ?_ ?_ hops ?_ ?_
  · intro s o ho h
    exact h.perform (viaService_of_managesFiles ho)
  · intro s t h
    exact ⟨h.valid, h.files⟩
  · intro s o ho hpl h
    exact kept_perform_iff h hpl ho
  · intro s t hpl h
    exact iff_of_true ⟨h.owned, h.present⟩ rfl
  · exact ⟨hv, by simp [Files, h0]⟩
  · exact ⟨by simp [hb], by simp [h0]⟩

def twoMembers : Server where
  db :=
    { users := [{ (default : UserRecord) with userId := "u", username := "u" },
        { (default : UserRecord) with userId := "v", username := "v" }]
      conversations := [⟨"c", .group, "v", 0, "", 0⟩]
      conversationMembers := [⟨"c", "u", .member, 0, none⟩, ⟨"c", "v", .member, 0, none⟩] }

def uploaded : List (Op ⊕ Timestamp) :=
  [.inl (.initUpload "u" "c" 2 "" "x"), .inl (.writeChunk "x" 0 "ab"),
    .inl (.finalizeUpload "x" "h")]

/-- The upload expires before the user is deleted. -/
theorem expired_leaves_no_file : twoMembers.db.Valid ∧
    Machine.Throughout (voxServer default).atOnce Kept twoMembers
      (uploaded ++ [.inr 10000000, .inl .deleteExpiredAttachments, .inl (.deleteUser "u")]) := by
  have hv : twoMembers.db.Valid := by decide
  refine ⟨hv, (kept_iff_leavesNoFile default hv rfl (fun _ => rfl) ?_).mpr (by decide)⟩
  simp [uploaded, managesFiles]

/-- Deleting the user leaves the file of the upload. -/
theorem deleted_leaves_file : ∃ s, Machine.run (voxServer default).atOnce twoMembers
      (uploaded ++ [.inl (.deleteUser "u")]) = some s ∧
    s.blobs "blobs/x.blob" = some "ab" ∧ s.db.attachmentMetadata = [] ∧ ¬ Kept s := by
  refine ⟨_, rfl, by decide, by decide, fun h => ?_⟩
  obtain ⟨a, ha, -⟩ := h.owned "blobs/x.blob" (by decide)
  exact List.not_mem_nil ha

end VoxServer.Uploads
