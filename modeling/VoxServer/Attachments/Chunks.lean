import VoxServer.Attachments.Files

/-! # Chunks in any order

A file is cut into consecutive chunks, and each chunk is written at its offset. Every
chunk that has been written stands in the file from then on, whatever is written after
it, so the order does not matter and chunks may be sent again.
-/

namespace VoxServer.Uploads

open Interleaving Prog AttachmentRepository

def layout : ℕ → List String → List (ℕ × String)
  | _, [] => []
  | offset, c :: cs => (offset, c) :: layout (offset + c.toList.length) cs

section Layout

variable {whole : List Char} {cs : List String}

theorem getElem?_of_mem_layout {offset : ℕ} (h : (String.join cs).toList <+: whole.drop offset)
    {p : ℕ × String} (hp : p ∈ layout offset cs) {i : ℕ} (hi : i < p.2.toList.length) :
    p.2.toList[i]? = whole[p.1 + i]? := by
  induction cs generalizing offset with
  | nil => cases hp
  | cons c cs ih =>
    rw [String.join_cons, String.toList_append] at h
    rcases List.mem_cons.mp hp with rfl | hp
    · obtain ⟨rest, hrest⟩ := h
      rw [← List.getElem?_drop, ← hrest, List.append_assoc, List.getElem?_append_left hi]
    · refine ih ?_ hp
      obtain ⟨rest, hrest⟩ := h
      rw [← List.drop_drop, ← hrest, List.append_assoc, List.drop_left]
      exact List.prefix_append _ _

theorem exists_mem_layout {offset i : ℕ} (hle : offset ≤ i)
    (hlt : i < offset + (String.join cs).toList.length) :
    ∃ p ∈ layout offset cs, p.1 ≤ i ∧ i < p.1 + p.2.toList.length := by
  induction cs generalizing offset with
  | nil =>
    simp at hlt
    omega
  | cons c cs ih =>
    rw [String.join_cons, String.toList_append, List.length_append] at hlt
    by_cases hc : i < offset + c.toList.length
    · exact ⟨_, List.mem_cons_self, hle, hc⟩
    · obtain ⟨p, hp, hin⟩ := ih (not_lt.mp hc) (by omega)
      exact ⟨p, List.mem_cons_of_mem _ hp, hin⟩

end Layout

/-- The file is not longer than the whole, and the chunks that were sent stand in it. -/
structure Holds (whole : List Char) (sent : List (ℕ × String)) (bytes : List Char) : Prop where
  length_le : bytes.length ≤ whole.length
  stands : ∀ p ∈ sent, ∀ i, p.1 ≤ i → i < p.1 + p.2.toList.length →
    i < bytes.length ∧ bytes[i]? = whole[i]?

section Holds

variable {whole bytes : List Char} {sent : List (ℕ × String)} {p : ℕ × String} {cs : List String}

theorem holds_nil (whole : List Char) : Holds whole [] [] := ⟨Nat.zero_le _, by simp⟩

theorem Holds.write (h : Holds whole sent bytes)
    (hp : ∀ i < p.2.toList.length, p.2.toList[i]? = whole[p.1 + i]?) :
    Holds whole (sent ++ [p]) (BlobStorage.writeAt p.1 p.2.toList bytes) := by
  by_cases hempty : p.2.toList = []
  · simp only [hempty, BlobStorage.writeAt, if_true]
    refine ⟨h.length_le, fun q hq i hle hlt => ?_⟩
    rcases List.mem_append.mp hq with hq | hq
    · exact h.stands q hq i hle hlt
    · rw [List.mem_singleton.mp hq, hempty, List.length_nil] at hlt
      rw [List.mem_singleton.mp hq] at hle
      omega
  have hlength := BlobStorage.length_writeAt p.1 hempty bytes
  have hwritten : ∀ i, p.1 ≤ i → i < p.1 + p.2.toList.length →
      (BlobStorage.writeAt p.1 p.2.toList bytes)[i]? = whole[i]? := by
    intro i hle hlt
    rw [BlobStorage.getElem?_writeAt_of_mem hle hlt, hp (i - p.1) (by omega)]
    congr 1
    omega
  constructor
  · -- The last byte of the chunk is one of the whole.
    have hpos := List.length_pos_iff.mpr hempty
    have hlast := hp (p.2.toList.length - 1) (by omega)
    rw [List.getElem?_eq_getElem (by omega), eq_comm, List.getElem?_eq_some_iff] at hlast
    obtain ⟨hlt, -⟩ := hlast
    have := h.length_le
    omega
  · intro q hq i hle hlt
    by_cases hin : p.1 ≤ i ∧ i < p.1 + p.2.toList.length
    · exact ⟨by omega, hwritten i hin.1 hin.2⟩
    · rcases List.mem_append.mp hq with hq | hq
      · obtain ⟨hi, heq⟩ := h.stands q hq i hle hlt
        refine ⟨by omega, ?_⟩
        rw [BlobStorage.getElem?_writeAt_of_not_mem hi (by omega), heq]
      · rw [List.mem_singleton.mp hq] at hle hlt
        exact absurd ⟨hle, hlt⟩ hin

theorem Holds.writeAt_eq (h : Holds whole sent bytes) (hsent : p ∈ sent)
    (hp : ∀ i < p.2.toList.length, p.2.toList[i]? = whole[p.1 + i]?) :
    BlobStorage.writeAt p.1 p.2.toList bytes = bytes := by
  rw [BlobStorage.writeAt_eq_self_iff, List.prefix_iff_getElem?]
  intro i hi
  obtain ⟨hlt, heq⟩ := h.stands p hsent (p.1 + i) (by omega) (by omega)
  rw [List.getElem?_drop, heq, ← hp i hi, List.getElem?_eq_getElem hi]

theorem Holds.eq_join (h : Holds (String.join cs).toList sent bytes)
    (hall : ∀ p ∈ layout 0 cs, p ∈ sent) : bytes = (String.join cs).toList := by
  refine List.ext_getElem? fun i => ?_
  by_cases hi : i < (String.join cs).toList.length
  · obtain ⟨p, hp, hle, hlt⟩ := exists_mem_layout (Nat.zero_le i) (by rwa [Nat.zero_add])
    exact (h.stands p (hall p hp) i hle hlt).2
  · have := h.length_le
    rw [List.getElem?_eq_none (by omega), List.getElem?_eq_none (by omega)]

end Holds

def writes (i : AttachmentId) (order : List (ℕ × String)) : List Op :=
  order.map fun p => .writeChunk i p.1 p.2

section Writes

variable {cfg : ServerConfig} {s : Server} {i : AttachmentId} {a : AttachmentRecord}

theorem run_writeChunk (hopen : stillOpen i s.db = some a) (offset : ℕ) (data : String) :
    (AttachmentService.writeChunk i offset data).run (Call.exec cfg) s =
      (.ok (), { s with blobs := Function.update s.blobs a.blobPath (some (String.ofList
        (BlobStorage.writeAt offset data.toList ((s.blobs a.blobPath).getD "").toList))) }) := by
  obtain ⟨hmeta, hcomplete⟩ := Option.filter_eq_some_iff.mp hopen
  have hget : Call.exec cfg (.attachments (.getAttachmentMeta i)) s = (some a, s) := by
    simp only [Call.exec, AttachmentCall.exec, Call.onDb, hmeta]
  have hopen : a.uploadComplete = false := by simpa using hcomplete
  have hwrite : Call.exec cfg (.blobs (.write a.blobPath offset data)) s =
      (true, { s with blobs := Function.update s.blobs a.blobPath (some (String.ofList
        (BlobStorage.writeAt offset data.toList ((s.blobs a.blobPath).getD "").toList))) }) := by
    simp [Call.exec, BlobCall.exec, BlobStorage.write]
  simp [AttachmentService.writeChunk, hget, hopen, hwrite]

theorem performAll_writes (cfg : ServerConfig) {cs : List String} {order : List (ℕ × String)}
    (hopen : stillOpen i s.db = some a) (hfresh : s.blobs a.blobPath = none)
    (hlayout : ∀ p ∈ order, p ∈ layout 0 cs) :
    ((voxServer cfg).performAll s (writes i order)).1 =
        order.map (fun p => ⟨.writeChunk i p.1 p.2, .ok ()⟩) ∧
      ((voxServer cfg).performAll s (writes i order)).2.db = s.db ∧
      (order ≠ [] → (((voxServer cfg).performAll s (writes i order)).2.blobs a.blobPath).isSome) ∧
      Holds (String.join cs).toList order
        ((((voxServer cfg).performAll s (writes i order)).2.blobs a.blobPath).getD "").toList := by
  induction order using List.reverseRecOn with
  | nil => exact ⟨rfl, rfl, by simp, by simpa [writes, System.performAll, hfresh] using holds_nil _⟩
  | append_singleton order p ih =>
    obtain ⟨hhist, hdb, -, hholds⟩ := ih fun q hq => hlayout q (List.mem_append_left _ hq)
    have hwrites : writes i (order ++ [p]) = writes i order ++ [.writeChunk i p.1 p.2] := by
      simp [writes]
    rw [hwrites, System.performAll_snoc, System.perform]
    generalize (voxServer cfg).performAll s (writes i order) = q at hhist hdb hholds ⊢
    have hpiece : ∀ j < p.2.toList.length, p.2.toList[j]? = (String.join cs).toList[p.1 + j]? :=
      fun j hj => getElem?_of_mem_layout List.prefix_rfl (hlayout p (by simp)) hj
    have hrun : (AttachmentService.writeChunk i p.1 p.2).run (Call.exec cfg) q.2 = _ :=
      run_writeChunk (hdb ▸ hopen) p.1 p.2
    simp only [voxServer, Op.code, hrun]
    refine ⟨?_, hdb, by simp, ?_⟩
    · simp [hhist]
    · simpa using hholds.write hpiece

/-- Chunks of an open upload that has no file yet may be sent in any order, and again at any time.
All writes succeed, the file is what was cut into the chunks as soon as each of them was sent, and
sending one of them again changes nothing. -/
theorem chunks_in_any_order {data : String} {cs : List String} {order : List (ℕ × String)}
    (hopen : stillOpen i s.db = some a) (hfresh : s.blobs a.blobPath = none) (hcs : cs ≠ [])
    (hcut : String.join cs = data) (hlayout : order ⊆ layout 0 cs) :
    ((voxServer cfg).performAll s (writes i order)).1 =
        order.map (fun p => ⟨.writeChunk i p.1 p.2, .ok ()⟩) ∧
      (layout 0 cs ⊆ order →
        ((voxServer cfg).performAll s (writes i order)).2.blobs a.blobPath = some data) ∧
      ∀ p ∈ order, (AttachmentService.writeChunk i p.1 p.2).run (Call.exec cfg)
          ((voxServer cfg).performAll s (writes i order)).2 =
        (.ok (), ((voxServer cfg).performAll s (writes i order)).2) := by
  subst hcut
  obtain ⟨hhist, hdb, hsome, hholds⟩ := performAll_writes cfg hopen hfresh fun p hp => hlayout hp
  generalize (voxServer cfg).performAll s (writes i order) = q at hhist hdb hsome hholds ⊢
  refine ⟨hhist, fun hall => ?_, fun p hp => ?_⟩
  · have hne : order ≠ [] := by
      obtain ⟨c, cs, rfl⟩ := List.exists_cons_of_ne_nil hcs
      exact List.ne_nil_of_mem (hall List.mem_cons_self)
    obtain ⟨bytes, hbytes⟩ := Option.isSome_iff_exists.mp (hsome hne)
    have hjoin := hholds.eq_join fun p hp => hall hp
    rw [hbytes, Option.getD_some, String.toList_inj] at hjoin
    rw [hbytes, hjoin]
  · have hpiece : ∀ j < p.2.toList.length, p.2.toList[j]? = (String.join cs).toList[p.1 + j]? :=
      fun j hj => getElem?_of_mem_layout List.prefix_rfl (hlayout hp) hj
    obtain ⟨bytes, hbytes⟩ := Option.isSome_iff_exists.mp (hsome (List.ne_nil_of_mem hp))
    rw [run_writeChunk (hdb ▸ hopen), hholds.writeAt_eq hp hpiece, String.ofList_toList, hbytes,
      Option.getD_some, ← hbytes, Function.update_eq_self]

def announcedUpload : Server :=
  ((voxServer default).performAll twoMembers [.initUpload "u" "c" 3 "" "x"]).2

/-- The last chunk first, an empty one, and one that is sent twice. -/
theorem abc_in_any_order :
    ((voxServer default).performAll announcedUpload
      (writes "x" [(2, "c"), (0, "ab"), (2, ""), (0, "ab")])).2.blobs "blobs/x.blob" =
        some "abc" := by
  obtain ⟨a, hopen⟩ := Option.isSome_iff_exists.mp
    (by decide : (stillOpen "x" announcedUpload.db).isSome)
  have hpath : a.blobPath = "blobs/x.blob" := by
    have hpaths : (stillOpen "x" announcedUpload.db).map (·.blobPath) = some "blobs/x.blob" := by
      decide
    simpa [hopen] using hpaths
  rw [← hpath]
  exact (chunks_in_any_order hopen (by rw [hpath]; rfl) (by decide) (by decide)
    (by decide : _ ⊆ layout 0 ["ab", "", "c"])).2.1 (by decide)

end Writes

end VoxServer.Uploads
