import Mathlib.Algebra.Order.BigOperators.Group.List
import VoxServer.Server.Wiring

/-! # The storage quota

The quota of a user is checked when an upload is announced, against the uploads that
are complete. Several uploads may be open at a time, so it holds only if each upload
that is admitted fits together with the open ones.
-/

namespace VoxServer.Uploads

open Interleaving Prog Table AttachmentRepository

/-- The sizes of all uploads of the user, the open ones included. -/
def announced (u : UserId) (db : Database) : ℤ :=
  ((db.attachmentMetadata.filter (·.userId = u)).map (·.fileSize)).sum

/-- Uploads are announced by `InitUpload` only, and what it admits against the complete uploads
of the user fits together with the open ones. -/
def reserved (cfg : ServerConfig) (s : Server) : Op ⊕ Timestamp → Bool
  | .inl (.single (.attachments (.createAttachmentMeta _))) => false
  | .inl (.initUpload u _ n _ _) =>
    toInt64 (getStorageUsedByUser u s.db + n) ≤ toInt64 cfg.maxStoragePerUserBytes →
      announced u s.db + n ≤ cfg.maxStoragePerUserBytes
  | _ => true

/-- All uploads of a user together stay within the limit. -/
structure Within (limit : ℤ) (db : Database) : Prop where
  positive : ∀ a ∈ db.attachmentMetadata, 0 < a.fileSize
  total : ∀ u, announced u db ≤ limit

section Within

variable {limit : ℤ} {db db' : Database}

theorem sum_fileSize_le {as as' : List AttachmentRecord} (h : as'.Sublist as)
    (hp : ∀ a ∈ as, 0 < a.fileSize) :
    (as'.map (·.fileSize)).sum ≤ (as.map (·.fileSize)).sum := by
  refine (h.map _).sum_le_sum fun n hn => ?_
  obtain ⟨a, ha, rfl⟩ := List.mem_map.mp hn
  exact (hp a ha).le

theorem Within.used (h : Within limit db) (u : UserId) : getStorageUsedByUser u db ≤ limit := by
  refine le_trans (sum_fileSize_le ?_ fun a ha => ?_) (h.total u)
  · exact List.monotone_filter_right _ fun a ha => by simp_all
  · exact h.positive a (List.mem_of_mem_filter ha)

theorem Within.drop (h : Within limit db)
    (hs : db'.attachmentMetadata.Sublist db.attachmentMetadata) : Within limit db' := by
  refine ⟨fun a ha => h.positive a (hs.subset ha), fun u => ?_⟩
  refine le_trans (sum_fileSize_le (hs.filter _) fun a ha => ?_) (h.total u)
  exact h.positive a (List.mem_of_mem_filter ha)

theorem Within.complete {i : AttachmentId} {hash : String} (h : Within limit db)
    (hs : db'.attachmentMetadata =
      updateWhere (·.attachmentId = i) (completed hash) db.attachmentMetadata) :
    Within limit db' := by
  refine ⟨fun a ha => ?_, fun u => ?_⟩
  · rw [hs] at ha
    obtain ⟨a₀, ha₀, rfl⟩ := mem_updateWhere.mp ha
    split
    · exact h.positive a₀ ha₀
    · exact h.positive a₀ ha₀
  · have hu : announced u db' = announced u db := by
      unfold announced
      rw [hs, filter_updateWhere (f := completed hash) (fun _ => rfl),
        map_updateWhere (f := completed hash) fun _ => rfl]
    exact hu ▸ h.total u

theorem Within.announce {r : AttachmentRecord} (h : Within limit db) (hr : 0 < r.fileSize)
    (hfit : announced r.userId db + r.fileSize ≤ limit)
    (hs : db'.attachmentMetadata = db.attachmentMetadata ++
      [{ r with uploadComplete := false, ciphertextHash := "" }]) : Within limit db' := by
  refine ⟨fun a ha => ?_, fun u => ?_⟩
  · rw [hs] at ha
    rcases List.mem_append.mp ha with ha | ha
    · exact h.positive a ha
    · rw [List.mem_singleton.mp ha]
      exact hr
  · unfold announced
    rw [hs]
    by_cases hu : r.userId = u
    · subst hu
      simpa [announced] using hfit
    · simpa [hu, announced] using h.total u

end Within

section Operations

variable {cfg : ServerConfig} {limit : ℤ} {s : Server}

theorem Within.call {c : Call} (h : Within limit s.db)
    (hc : ∀ r, c = .attachments (.createAttachmentMeta r) →
      0 < r.fileSize ∧ announced r.userId s.db + r.fileSize ≤ limit) :
    Within limit (c.exec cfg s).2.db := by
  rcases c.attachments_of_exec cfg (s := s) with hs | ⟨i, hash, -, hs⟩ | ⟨r, rfl, hs⟩
  · exact h.drop hs
  · exact h.complete hs
  · obtain ⟨hr, hfit⟩ := hc r rfl
    exact h.announce hr hfit hs

variable (cfg) in
theorem Within.create {r : AttachmentRecord} (h : Within limit s.db) (hr : 0 < r.fileSize)
    (hfit : announced r.userId s.db + r.fileSize ≤ limit) :
    Within limit (Call.exec cfg (.attachments (.createAttachmentMeta r)) s).2.db := by
  refine h.call ?_
  rintro r' ⟨⟩
  exact ⟨hr, hfit⟩

theorem Within.initUpload {u : UserId} {c : ConversationId} {n : ℤ} {mime uuid : String}
    (h : Within cfg.maxStoragePerUserBytes s.db)
    (hr : reserved cfg s (.inl (.initUpload u c n mime uuid))) :
    (AttachmentService.initUpload cfg u c n mime uuid).Ends (Call.exec cfg)
      (fun _ s => Within cfg.maxStoragePerUserBytes s.db) s := by
  unfold AttachmentService.initUpload
  split
  · exact h
  split
  · exact h
  refine ends_perform_bind.mpr ?_
  split
  · exact h
  rename_i hn _ hused
  refine ends_perform_bind.mpr ?_
  split
  · exact h
  refine ends_perform_bind.mpr (ends_perform_bind.mpr ?_)
  simp only [reserved, decide_eq_true_eq] at hr
  simp only [Call.exec, Call.onDb, AttachmentCall.exec, not_lt] at hused
  have hfit := hr hused
  split
  · exact h.create cfg (not_le.mp hn) hfit
  · exact h.create cfg (not_le.mp hn) hfit

theorem Within.perform {o : Op} (h : Within cfg.maxStoragePerUserBytes s.db)
    (ho : reserved cfg s (.inl o)) :
    (o.code cfg).Ends (Call.exec cfg) (fun _ s => Within cfg.maxStoragePerUserBytes s.db) s := by
  by_cases hi : ∃ u c n m i, o = .initUpload u c n m i
  · obtain ⟨u, c, n, m, i, rfl⟩ := hi
    exact h.initUpload ho
  · refine (o.code_only cfg).ends (I := fun s : Server => Within _ s.db)
      (fun c s hc h => h.call ?_) h
    -- no other operation announces an upload
    rintro r rfl
    cases o with
    | initUpload u c n m i => exact absurd ⟨u, c, n, m, i, rfl⟩ hi
    | single c =>
      obtain rfl := of_decide_eq_true hc
      cases ho
    | _ => cases hc

end Operations

/-- While each upload that is admitted fits together with the open ones, the complete uploads of
every user stay within the quota. -/
theorem quota_kept_of_reserved (cfg : ServerConfig) {init s : Server}
    (h0 : init.db.attachmentMetadata = []) {acts : List (Op ⊕ Timestamp)}
    (hrun : Machine.run (voxServer cfg).atOnce init acts = some s)
    (hr : Machine.always (voxServer cfg).atOnce (reserved cfg) init acts) (u : UserId) :
    getStorageUsedByUser u s.db ≤ cfg.maxStoragePerUserBytes := by
  have hinit : Within cfg.maxStoragePerUserBytes init.db := by
    refine ⟨by simp [h0], fun u => ?_⟩
    simp [announced, h0]
  exact ((voxServer cfg).atOnce_invariant (I := fun s => Within cfg.maxStoragePerUserBytes s.db)
    (fun s o h ho => h.perform ho) (fun s t h => h) hinit hrun hr).used u

def tenBytes : ServerConfig := { (default : ServerConfig) with maxStoragePerUserBytes := 10 }

def aliceAlone : List (Op ⊕ Timestamp) :=
  [.inl (.register ⟨"alice", "p", "d", "", "k", "k", "k", "w", "w", "w"⟩ (some "s") "a" "d"
      ⟨"t", "r", "s"⟩),
    .inl (.createDm "a" "a" "a" "c")]

def twoSmall : List (Op ⊕ Timestamp) := aliceAlone ++
  [.inl (.initUpload "a" "c" 4 "" "x"), .inl (.writeChunk "x" 0 "0123"),
    .inl (.finalizeUpload "x" "h"), .inl (.initUpload "a" "c" 6 "" "y"),
    .inl (.writeChunk "y" 0 "012345"), .inl (.finalizeUpload "y" "h")]

theorem twoSmall_within : (Machine.run (voxServer tenBytes).atOnce {} twoSmall).any
    (getStorageUsedByUser "a" ·.db = 10) ∧
      ∀ s, Machine.run (voxServer tenBytes).atOnce {} twoSmall = some s →
        getStorageUsedByUser "a" s.db ≤ 10 :=
  ⟨by decide, fun _ hs => quota_kept_of_reserved tenBytes rfl hs (by decide) "a"⟩

/-- Two uploads that are open at the same time are both admitted, and both are completed. -/
theorem two_open_exceed : ∃ s, Machine.run (voxServer tenBytes).atOnce {} (aliceAlone ++
    [.inl (.initUpload "a" "c" 10 "" "x"), .inl (.initUpload "a" "c" 10 "" "y"),
      .inl (.writeChunk "x" 0 "0"), .inl (.finalizeUpload "x" "h"),
      .inl (.writeChunk "y" 0 "0"), .inl (.finalizeUpload "y" "h")]) = some s ∧
    getStorageUsedByUser "a" s.db = 20 ∧
      ¬ getStorageUsedByUser "a" s.db ≤ tenBytes.maxStoragePerUserBytes :=
  ⟨_, rfl, by decide, by decide⟩

end VoxServer.Uploads
