import VoxServer.Attachments.Files

/-! # The size of a file

An upload announces the size of its file. Chunks may be written behind that size and an
upload may be completed before its last byte is there, so the files have their sizes
exactly if the requests keep to them.
-/

namespace VoxServer.Uploads

open Interleaving Prog Table AttachmentRepository

/-- No file is longer than its upload has announced, nor than any upload may be, and the file of a
complete upload has just that size. -/
structure Sized (cfg : ServerConfig) (s : Server) : Prop where
  within : ∀ a ∈ s.db.attachmentMetadata, ∀ bytes, s.blobs a.blobPath = some bytes →
    (bytes.length : ℤ) ≤ a.fileSize ∧ bytes.length ≤ cfg.maxUploadSizeBytes
  complete : ∀ a ∈ s.db.attachmentMetadata, a.uploadComplete →
    ∃ bytes, s.blobs a.blobPath = some bytes ∧ (bytes.length : ℤ) = a.fileSize

def uploads : Op → Bool
  | .initUpload .. => true
  | .writeChunk .. => true
  | .finalizeUpload .. => true
  | _ => false

/-- A chunk for an open upload ends within the announced size, and an open upload that has a file is
completed when the file has that size. -/
def fits (s : Server) : Op ⊕ Timestamp → Bool
  | .inl (.writeChunk i offset data) => (stillOpen i s.db).all fun a =>
    offset < 0 ∨ data = "" ∨ offset + data.length ≤ a.fileSize
  | .inl (.finalizeUpload i _) => (stillOpen i s.db).all fun a =>
    (s.blobs a.blobPath).all fun bytes => (bytes.length : ℤ) = a.fileSize
  | _ => true

/-- What the operations of uploads keep whatever their chunks are. -/
structure Announced (cfg : ServerConfig) (s : Server) : Prop where
  placed : Placed cfg s
  kept : Kept s
  limit : ∀ a ∈ s.db.attachmentMetadata,
    0 < a.fileSize ∧ a.fileSize ≤ cfg.maxUploadSizeBytes

section Sized

variable {cfg : ServerConfig} {s : Server}

theorem managesFiles_of_uploads {o : Op} (h : uploads o) : managesFiles o := by
  cases o with
  | initUpload => rfl
  | writeChunk => rfl
  | finalizeUpload => rfl
  | _ => cases h

theorem limit_perform {o : Op} (ho : uploads o)
    (h : ∀ a ∈ s.db.attachmentMetadata, 0 < a.fileSize ∧ a.fileSize ≤ cfg.maxUploadSizeBytes) :
    (o.code cfg).Ends (Call.exec cfg) (fun _ s' => ∀ a ∈ s'.db.attachmentMetadata,
      0 < a.fileSize ∧ a.fileSize ≤ cfg.maxUploadSizeBytes) s := by
  cases o with
  | initUpload u c n m i =>
    refine (ends_initUpload u c n m i).mono ?_
    rintro - s' (rfl | ⟨r, db', hins, rfl, -, hr⟩) a ha
    · exact h a ha
    · obtain ⟨-, -, -, rfl⟩ := insertAttachment_ok hins
      rcases List.mem_append.mp ha with ha | ha
      · exact h a ha
      · rw [List.mem_singleton.mp ha]
        exact hr
  | writeChunk i offset data =>
    refine (ends_writeChunk i offset data).mono ?_
    rintro - s' rfl a ha
    cases hopen : stillOpen i s.db with
    | none =>
      rw [hopen] at ha
      exact h a ha
    | some b =>
      rw [hopen, Option.elim_some, BlobStorage.write_db] at ha
      exact h a ha
  | finalizeUpload i hash =>
    refine (ends_finalizeUpload i hash).mono ?_
    rintro - s' rfl a ha
    cases hopen : stillOpen i s.db with
    | none =>
      rw [hopen] at ha
      exact h a ha
    | some b =>
      rw [hopen, Option.elim_some] at ha
      split at ha
      · rw [markUploadComplete_snd] at ha
        obtain ⟨a₀, ha₀, rfl⟩ := mem_updateWhere.mp ha
        split
        · exact h a₀ ha₀
        · exact h a₀ ha₀
      · exact h a ha
  | _ => cases ho

theorem Announced.perform {o : Op} (h : Announced cfg s) (ho : uploads o) :
    (o.code cfg).Ends (Call.exec cfg) (fun _ => Announced cfg) s := by
  have hm := managesFiles_of_uploads ho
  have hkept : leavesNoFile s (.inl o) := by
    cases o with
    | deleteUser u => cases ho
    | _ => rfl
  exact ⟨h.placed.perform (viaService_of_managesFiles hm),
    (kept_perform_iff h.kept h.placed hm).mpr hkept, limit_perform ho h.limit⟩

theorem Sized.announce {r : AttachmentRecord} {db' : Database} (h : Sized cfg s)
    (ha : Announced cfg s) (hins : insertAttachment r s.db = .ok db')
    (hpath : r.blobPath = AttachmentService.blobPathOf cfg r.attachmentId) :
    Sized cfg { s with db := db' } := by
  obtain ⟨hnew, -, -, rfl⟩ := insertAttachment_ok hins
  have hnone : s.blobs r.blobPath = none := by
    by_contra hsome
    obtain ⟨a, hmem, hp⟩ := ha.kept.owned r.blobPath (Option.isSome_iff_ne_none.mpr hsome)
    rw [ha.placed.files a hmem, hpath] at hp
    exact hnew a hmem (blobPathOf_inj.mp hp)
  constructor
  · intro a hmem bytes hbytes
    rcases List.mem_append.mp hmem with hmem | hmem
    · exact h.within a hmem bytes hbytes
    · rw [List.mem_singleton.mp hmem] at hbytes
      exact absurd (hnone.symm.trans hbytes) (by simp)
  · intro a hmem hdone
    rcases List.mem_append.mp hmem with hmem | hmem
    · exact h.complete a hmem hdone
    · rw [List.mem_singleton.mp hmem] at hdone
      cases hdone

theorem sized_write_iff {a : AttachmentRecord} (h : Sized cfg s) (hann : Announced cfg s)
    (ha : a ∈ s.db.attachmentMetadata) (hopen : a.uploadComplete = false) (offset : ℤ)
    (data : String) : Sized cfg (BlobStorage.write a.blobPath offset data s).2 ↔
      ∀ bytes, (BlobStorage.write a.blobPath offset data s).2.blobs a.blobPath = some bytes →
        (bytes.length : ℤ) ≤ a.fileSize := by
  have hother : ∀ b ∈ s.db.attachmentMetadata, b ≠ a →
      (BlobStorage.write a.blobPath offset data s).2.blobs b.blobPath = s.blobs b.blobPath := by
    intro b hb hne
    apply BlobStorage.write_blobs_of_ne
    exact fun hp => hne (hann.placed.eq_of_blobPath hb ha hp)
  constructor
  · intro h' bytes hbytes
    rw [← BlobStorage.write_db a.blobPath offset data s] at ha
    exact (h'.within a ha bytes hbytes).1
  · intro hfit
    constructor
    · intro b hb bytes hbytes
      rw [BlobStorage.write_db] at hb
      by_cases hba : b = a
      · subst hba
        have hle := hfit bytes hbytes
        have hmax := (hann.limit b hb).2
        exact ⟨hle, by omega⟩
      · rw [hother b hb hba] at hbytes
        exact h.within b hb bytes hbytes
    · intro b hb hdone
      rw [BlobStorage.write_db] at hb
      have hba : b ≠ a := by
        rintro rfl
        rw [hopen] at hdone
        cases hdone
      rw [hother b hb hba]
      exact h.complete b hb hdone

/-- The file is within the announced size after a chunk that is empty, fails or ends within it. -/
theorem write_within_iff {path : String} {n : ℤ} (hn : 0 ≤ n)
    (hfile : ∀ bytes, s.blobs path = some bytes → (bytes.length : ℤ) ≤ n) (offset : ℤ)
    (data : String) :
    (∀ bytes, (BlobStorage.write path offset data s).2.blobs path = some bytes →
      (bytes.length : ℤ) ≤ n) ↔ offset < 0 ∨ data = "" ∨ offset + data.length ≤ n := by
  have hold : (((s.blobs path).getD "").length : ℤ) ≤ n := by
    cases hb : s.blobs path with
    | none => simpa using hn
    | some bytes => exact hfile bytes hb
  simp only [BlobStorage.write_blobs_self, Option.some.injEq, forall_eq']
  by_cases ho : offset < 0
  · simp [ho, hold]
  by_cases hd : data = ""
  · simp [hd, ho, BlobStorage.writeAt, hold]
  · have hne : data.toList ≠ [] := by simpa using hd
    have hlen := BlobStorage.length_writeAt offset.toNat hne ((s.blobs path).getD "").toList
    simp only [String.length_toList] at hlen
    simp only [ho, if_false, String.length_ofList, hlen, hd, false_or]
    omega

theorem sized_complete_iff {a : AttachmentRecord} {bytes : String} (h : Sized cfg s)
    (hann : Announced cfg s) (ha : a ∈ s.db.attachmentMetadata)
    (hbytes : s.blobs a.blobPath = some bytes) (hash : String) :
    Sized cfg { s with db := (markUploadComplete a.attachmentId hash s.db).2 } ↔
      (bytes.length : ℤ) = a.fileSize := by
  rw [markUploadComplete_snd]
  constructor
  · intro h'
    have hmem := mem_updateWhere (p := (·.attachmentId = a.attachmentId)) (f := completed hash)
      |>.mpr ⟨a, ha, rfl⟩
    rw [if_pos (decide_eq_true rfl)] at hmem
    obtain ⟨bytes', hb', hlen⟩ := h'.complete _ hmem rfl
    rw [Option.some.inj (hbytes.symm.trans hb')]
    exact hlen
  · intro hlen
    constructor
    · intro b hb bytes' hbytes'
      obtain ⟨b₀, hb₀, rfl⟩ := mem_updateWhere.mp hb
      by_cases hi : b₀.attachmentId = a.attachmentId
      · rw [if_pos (decide_eq_true hi)] at hbytes' ⊢
        exact h.within b₀ hb₀ bytes' hbytes'
      · rw [if_neg (by simpa using hi)] at hbytes' ⊢
        exact h.within b₀ hb₀ bytes' hbytes'
    · intro b hb hdone
      obtain ⟨b₀, hb₀, rfl⟩ := mem_updateWhere.mp hb
      by_cases hi : b₀.attachmentId = a.attachmentId
      · obtain rfl := hann.placed.valid.attachments_pk.eq_of_mem hb₀ ha hi
        rw [if_pos (decide_eq_true rfl)]
        exact ⟨bytes, hbytes, hlen⟩
      · rw [if_neg (by simpa using hi)] at hdone ⊢
        exact h.complete b₀ hb₀ hdone

theorem sized_perform_iff {o : Op} (h : Sized cfg s) (hann : Announced cfg s) (ho : uploads o) :
    (o.code cfg).Ends (Call.exec cfg) (fun _ s' => (Sized cfg s' ↔ fits s (.inl o))) s := by
  cases o with
  | initUpload u c n m i =>
    refine (ends_initUpload u c n m i).mono ?_
    rintro - s' (rfl | ⟨r, db', hins, rfl, hpath, -⟩)
    · exact iff_of_true h rfl
    · exact iff_of_true (h.announce hann hins hpath) rfl
  | writeChunk i offset data =>
    refine (ends_writeChunk i offset data).mono ?_
    rintro - s' rfl
    cases hopen : stillOpen i s.db with
    | none => exact iff_of_true h (by simp [fits, hopen])
    | some a =>
      obtain ⟨ha, -, hdone⟩ := stillOpen_eq_some hopen
      simp only [Option.elim_some, sized_write_iff h hann ha hdone, fits, hopen, Option.all_some,
        decide_eq_true_eq]
      exact write_within_iff (hann.limit a ha).1.le (fun bytes hb => (h.within a ha bytes hb).1)
        offset data
  | finalizeUpload i hash =>
    refine (ends_finalizeUpload i hash).mono ?_
    rintro - s' rfl
    cases hopen : stillOpen i s.db with
    | none => exact iff_of_true h (by simp [fits, hopen])
    | some a =>
      obtain ⟨ha, rfl, -⟩ := stillOpen_eq_some hopen
      cases hb : s.blobs a.blobPath with
      | none => exact iff_of_true (by simpa [hb] using h) (by simp [fits, hopen, hb])
      | some bytes =>
        simp only [Option.elim_some, hb, Option.isSome_some, if_true, fits, hopen, Option.all_some,
          decide_eq_true_eq]
        exact sized_complete_iff h hann ha hb hash
  | _ => cases ho

end Sized

/-- Through a sequence of uploads every file keeps to the announced size, exactly if no chunk for
an open upload ends behind it and no upload is completed with a file of another size. -/
theorem sized_iff_fits (cfg : ServerConfig) {init : Server} (hv : init.db.Valid)
    (h0 : init.db.attachmentMetadata = []) (hb : ∀ p, init.blobs p = none)
    {acts : List (Op ⊕ Timestamp)} (hops : ∀ o, .inl o ∈ acts → uploads o) :
    Machine.Throughout (voxServer cfg).atOnce (Sized cfg) init acts ↔
      Machine.always (voxServer cfg).atOnce fits init acts := by
  refine (voxServer cfg).atOnce_throughout_iff (I := Announced cfg) ?_ ?_ ?_ ?_ hops ?_ ?_
  · intro s o ho h
    exact h.perform ho
  · intro s t h
    exact ⟨⟨h.placed.valid, h.placed.files⟩, ⟨h.kept.owned, h.kept.present⟩, h.limit⟩
  · intro s o ho hann h
    exact sized_perform_iff h hann ho
  · intro s t hann h
    exact iff_of_true ⟨h.within, h.complete⟩ rfl
  · exact ⟨⟨hv, by simp [Files, h0]⟩, ⟨by simp [hb], by simp [h0]⟩, by simp [h0]⟩
  · exact ⟨by simp [h0], by simp [h0]⟩

/-- Chunks in any order that fill the file. -/
theorem filled_keeps_size : twoMembers.db.Valid ∧
    Machine.Throughout (voxServer default).atOnce (Sized default) twoMembers
      [.inl (.initUpload "u" "c" 4 "" "x"), .inl (.writeChunk "x" 2 "cd"),
        .inl (.writeChunk "x" 0 "ab"), .inl (.finalizeUpload "x" "h")] := by
  have hv : twoMembers.db.Valid := by decide
  refine ⟨hv, (sized_iff_fits default hv rfl (fun _ => rfl) ?_).mpr (by decide)⟩
  simp [uploads]

/-- An upload of two bytes gets a file of three, and one is completed with a single byte. -/
theorem file_beyond_size :
    (∃ s, Machine.run (voxServer default).atOnce twoMembers
      [.inl (.initUpload "u" "c" 2 "" "x"), .inl (.writeChunk "x" 0 "abc")] = some s ∧
      (getAttachmentMeta "x" s.db).map (·.fileSize) = some 2 ∧
      s.blobs "blobs/x.blob" = some "abc" ∧ ¬ Sized default s) ∧
    ∃ s, Machine.run (voxServer default).atOnce twoMembers
      [.inl (.initUpload "u" "c" 2 "" "x"), .inl (.writeChunk "x" 0 "a"),
        .inl (.finalizeUpload "x" "h")] = some s ∧
      (getAttachmentMeta "x" s.db).map (fun a => (a.fileSize, a.uploadComplete)) = some (2, true) ∧
      s.blobs "blobs/x.blob" = some "a" ∧ ¬ Sized default s := by
  refine ⟨⟨_, rfl, by decide, by decide, fun h => ?_⟩, _, rfl, by decide, by decide, fun h => ?_⟩
  · have hle := (h.within _ List.mem_cons_self "abc" (by decide)).1
    revert hle
    decide
  · obtain ⟨bytes, hb, hlen⟩ := h.complete _ List.mem_cons_self (by decide)
    obtain rfl : "a" = bytes := Option.some.inj hb
    revert hlen
    decide

end VoxServer.Uploads
