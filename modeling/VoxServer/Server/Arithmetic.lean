import VoxServer.Attachments.AttachmentService
import VoxServer.Auth.TokenManager
import VoxServer.Common.Config
import VoxServer.Interleaving.Sequential
import VoxServer.Relay.RelayService

/-! # Numbers from the configuration

The configuration file takes every 64-bit number. The services add lifetimes to the time of
the clock and compare sizes with the limits, which they cast to signed numbers. The results
are those of exact integers as long as the lifetimes leave room for the clock and the limits
and the storage of a user are below the sign bit.
-/

namespace VoxServer

/-- The configuration that the services run with, next to the libraries of `base`. -/
def servicesConfig (c : Config.ServerConfig) (base : ServerConfig) : ServerConfig :=
  { base with
    maxGroupSize := c.maxGroupSize.toNat
    maxChannelSize := c.maxChannelSize.toNat
    maxQueueDepthPerDevice := c.maxQueueDepthPerDevice.toNat
    accessTokenLifetimeSeconds := c.accessTokenLifetimeSeconds.toInt
    refreshTokenLifetimeSeconds := c.refreshTokenLifetimeSeconds.toInt
    maxWsOutboundQueue := c.maxWsOutboundQueue.toNat
    maxUploadSizeBytes := c.maxUploadSizeBytes.toNat
    maxStoragePerUserBytes := c.maxStoragePerUserBytes.toNat
    messageRetentionSeconds := c.messageRetentionSeconds.toInt
    attachmentRetentionSeconds := c.attachmentRetentionSeconds.toInt
    maxHttpBodyBytes := c.maxHttpBodyBytes.toNat
    blobStoragePath := c.blobStoragePath
    sessionTokenPepper := c.sessionTokenPepper
    adminToken := c.adminToken }

namespace Arithmetic

open Interleaving Prog AttachmentRepository

/-- The times that a session, an envelope and an attachment get are the sums of exact integers, so
the sums are numbers of 64 bits. -/
structure TimesFit (cfg : ServerConfig) (now : Timestamp) : Prop where
  access : ∀ u d fresh, (TokenManager.newSession cfg u d now fresh).accessExpiresAt =
    now + cfg.accessTokenLifetimeSeconds
  refresh : ∀ u d fresh, (TokenManager.newSession cfg u d now fresh).refreshExpiresAt =
    now + cfg.refreshTokenLifetimeSeconds
  message : ∀ request id, ∀ t ∈ (RelayService.newEnvelope cfg request id now).retentionUntil,
    t = now + cfg.messageRetentionSeconds
  attachment : ∀ u c n mime uuid,
    ∀ t ∈ (AttachmentService.newAttachment cfg u c n mime uuid now).retentionUntil,
      t = now + cfg.attachmentRetentionSeconds

def refusals : List Error :=
  [⟨.invalidArgument, "File size must be positive"⟩,
    ⟨.quotaExceeded, "File exceeds maximum upload size"⟩,
    ⟨.quotaExceeded, "User storage quota exceeded"⟩]

def accepts (cfg : ServerConfig) (s : Server) (u : UserId) (c : ConversationId) (fileSize : ℤ)
    (mime uuid : String) : Prop :=
  ∀ e ∈ refusals, ((AttachmentService.initUpload cfg u c fileSize mime uuid).run
    (Call.exec cfg) s).1 ≠ .error e

instance (cfg : ServerConfig) (s : Server) (u : UserId) (c : ConversationId) (fileSize : ℤ)
    (mime uuid : String) : Decidable (accepts cfg s u c fileSize mime uuid) :=
  inferInstanceAs (Decidable (∀ e ∈ refusals, _))

/-- The checks of an upload do not overflow, and are those of exact integers. -/
structure ChecksExact (cfg : ServerConfig) (s : Server) (u : UserId) (c : ConversationId)
    (fileSize : ℤ) (mime uuid : String) : Prop where
  sum : 0 < fileSize → fileSize ≤ toInt64 cfg.maxUploadSizeBytes →
    InInt64 (getStorageUsedByUser u s.db + fileSize)
  exact : accepts cfg s u c fileSize mime uuid ↔ 0 < fileSize ∧
    fileSize ≤ cfg.maxUploadSizeBytes ∧
    getStorageUsedByUser u s.db + fileSize ≤ cfg.maxStoragePerUserBytes

/-- The lifetimes leave room for a clock below `2 ^ 40`. -/
def lifetimesFit (c : Config.ServerConfig) : Prop :=
  c.accessTokenLifetimeSeconds.toInt ≤ 2 ^ 63 - 2 ^ 40 ∧
    c.refreshTokenLifetimeSeconds.toInt ≤ 2 ^ 63 - 2 ^ 40 ∧
    c.messageRetentionSeconds.toInt ≤ 2 ^ 63 - 2 ^ 40 ∧
    c.attachmentRetentionSeconds.toInt ≤ 2 ^ 63 - 2 ^ 40

instance (c : Config.ServerConfig) : Decidable (lifetimesFit c) :=
  inferInstanceAs (Decidable (_ ∧ _))

/-- The size is refused under either reading, or the numbers are below the sign bit. -/
def sizesFit (c : Config.ServerConfig) (used fileSize : ℤ) : Prop :=
  fileSize ≤ 0 ∨
    if c.maxUploadSizeBytes.toNat < 2 ^ 63 then c.maxUploadSizeBytes.toNat < fileSize ∨
      c.maxStoragePerUserBytes.toNat < 2 ^ 63 ∧ used + fileSize < 2 ^ 63
    else c.maxStoragePerUserBytes.toNat < used + fileSize

instance (c : Config.ServerConfig) (used fileSize : ℤ) : Decidable (sizesFit c used fileSize) :=
  inferInstanceAs (Decidable (_ ∨ _))

section Checks

variable {cfg : ServerConfig} {s : Server} {u : UserId} {c : ConversationId} {fileSize : ℤ}
  {mime uuid : String}

theorem code_of_createAttachmentMeta {r : AttachmentRecord} {db : Database} {e : Error}
    (h : (createAttachmentMeta r db).1 = .error e) : e.code = .internal := by
  unfold createAttachmentMeta at h
  split at h
  · cases h
  · cases h
    rfl

theorem accepts_iff : accepts cfg s u c fileSize mime uuid ↔
    0 < fileSize ∧ fileSize ≤ toInt64 cfg.maxUploadSizeBytes ∧
      toInt64 (getStorageUsedByUser u s.db + fileSize) ≤ toInt64 cfg.maxStoragePerUserBytes := by
  suffices h : (AttachmentService.initUpload cfg u c fileSize mime uuid).Ends (Call.exec cfg)
      (fun r _ => (∀ e ∈ refusals, r ≠ .error e) ↔ 0 < fileSize ∧
        fileSize ≤ toInt64 cfg.maxUploadSizeBytes ∧
        toInt64 (getStorageUsedByUser u s.db + fileSize) ≤
          toInt64 cfg.maxStoragePerUserBytes) s from h
  have hrefused : ∀ {e : Error}, e ∈ refusals → ∀ {P : Prop}, ¬ P →
      ((∀ e' ∈ refusals, (.error e : Result InitUploadResponse) ≠ .error e') ↔ P) :=
    fun he _ hP => iff_of_false (fun h => h _ he rfl) hP
  have hother : ∀ {e : Error}, e ∉ refusals →
      ∀ e' ∈ refusals, (.error e : Result InitUploadResponse) ≠ .error e' := by
    rintro e he e' he' ⟨⟩
    exact he he'
  unfold AttachmentService.initUpload
  split
  · exact hrefused (by decide) (by omega)
  split
  · exact hrefused (by decide) (by omega)
  refine ends_perform_bind.mpr ?_
  simp only [Call.exec, Call.onDb, AttachmentCall.exec]
  split
  · exact hrefused (by decide) (by omega)
  -- The checks are passed, and what follows fails with other errors.
  rename_i hpos hmax hsum
  have hpassed : 0 < fileSize ∧ fileSize ≤ toInt64 cfg.maxUploadSizeBytes ∧
      toInt64 (getStorageUsedByUser u s.db + fileSize) ≤ toInt64 cfg.maxStoragePerUserBytes :=
    ⟨not_le.mp hpos, not_lt.mp hmax, not_lt.mp hsum⟩
  refine ends_perform_bind.mpr ?_
  split
  · exact iff_of_true (hother (by decide)) hpassed
  refine ends_perform_bind.mpr (ends_perform_bind.mpr ?_)
  split
  · rename_i e hmeta
    have hcode : ∀ e ∈ refusals, e.code ≠ .internal := by decide
    exact iff_of_true (hother fun he => hcode e he (code_of_createAttachmentMeta hmeta)) hpassed
  · exact iff_of_true (fun e _ h => by cases h) hpassed

theorem toInt64_limit (n : UInt64) :
    toInt64 n.toNat = if n.toNat < 2 ^ 63 then (n.toNat : ℤ) else n.toNat - 2 ^ 64 := by
  have hlt := n.toNat_lt
  rw [toInt64, Int.bmod_def]
  split <;> split <;> omega

end Checks

section Times

variable (lifetime : Int64)

theorem toInt64_add_iff :
    (∀ now, 0 ≤ now → now < 2 ^ 40 → toInt64 (now + lifetime.toInt) = now + lifetime.toInt) ↔
      lifetime.toInt ≤ 2 ^ 63 - 2 ^ 40 := by
  have hle := lifetime.le_toInt
  simp only [toInt64_eq_self, InInt64]
  constructor
  · intro h
    have hlast := (h (2 ^ 40 - 1) (by decide) (by decide)).2
    omega
  · intro h now hnow hnow'
    exact ⟨by omega, by omega⟩

theorem toInt64_retention_iff :
    (∀ now, 0 ≤ now → now < 2 ^ 40 →
      ∀ t ∈ if lifetime.toInt > 0 then some (toInt64 (now + lifetime.toInt)) else none,
        t = now + lifetime.toInt) ↔
    lifetime.toInt ≤ 2 ^ 63 - 2 ^ 40 := by
  by_cases hpos : lifetime.toInt > 0
  · simpa only [if_pos hpos, Option.mem_some_iff, forall_eq'] using toInt64_add_iff lifetime
  · simp only [if_neg hpos, Option.not_mem_none, false_implies, implies_true, true_iff]
    omega

end Times

section Configurations

variable (c : Config.ServerConfig) (base : ServerConfig) {s : Server} {u : UserId}
  {conv : ConversationId} {fileSize : ℤ} {mime uuid : String}

theorem timesFit_iff :
    (∀ now, 0 ≤ now → now < 2 ^ 40 → TimesFit (servicesConfig c base) now) ↔ lifetimesFit c := by
  rw [lifetimesFit, ← toInt64_add_iff, ← toInt64_add_iff, ← toInt64_retention_iff,
    ← toInt64_retention_iff]
  constructor
  · intro h
    refine ⟨fun now h₀ h₁ => ?_, fun now h₀ h₁ => ?_, fun now h₀ h₁ => ?_, fun now h₀ h₁ => ?_⟩
    · exact (h now h₀ h₁).access "" "" ⟨"", "", ""⟩
    · exact (h now h₀ h₁).refresh "" "" ⟨"", "", ""⟩
    · exact (h now h₀ h₁).message ⟨"", "", "", "", "", 0, none⟩ ""
    · exact (h now h₀ h₁).attachment "" "" 0 "" ""
  · rintro ⟨haccess, hrefresh, hmessage, hattachment⟩ now h₀ h₁
    constructor
    · exact fun _ _ _ => haccess now h₀ h₁
    · exact fun _ _ _ => hrefresh now h₀ h₁
    · exact fun _ _ => hmessage now h₀ h₁
    · exact fun _ _ _ _ _ => hattachment now h₀ h₁

theorem checksExact_iff (hsize : InInt64 fileSize) (hused : 0 ≤ getStorageUsedByUser u s.db)
    (hused' : getStorageUsedByUser u s.db < 2 ^ 63) :
    ChecksExact (servicesConfig c base) s u conv fileSize mime uuid ↔
      sizesFit c (getStorageUsedByUser u s.db) fileSize := by
  have hupload : toInt64 (servicesConfig c base).maxUploadSizeBytes = _ :=
    toInt64_limit c.maxUploadSizeBytes
  have hstorage : toInt64 (servicesConfig c base).maxStoragePerUserBytes = _ :=
    toInt64_limit c.maxStoragePerUserBytes
  have hmax : (servicesConfig c base).maxUploadSizeBytes = c.maxUploadSizeBytes.toNat := rfl
  have hquota : (servicesConfig c base).maxStoragePerUserBytes =
      c.maxStoragePerUserBytes.toNat := rfl
  have hlt := c.maxUploadSizeBytes.toNat_lt
  have hlt' := c.maxStoragePerUserBytes.toNat_lt
  have hsum : getStorageUsedByUser u s.db + fileSize < 2 ^ 63 → 0 < fileSize →
      toInt64 (getStorageUsedByUser u s.db + fileSize) = getStorageUsedByUser u s.db + fileSize :=
    fun h hpos => toInt64_eq_self.mpr ⟨by omega, h⟩
  have hexact : ChecksExact (servicesConfig c base) s u conv fileSize mime uuid ↔
      (0 < fileSize → fileSize ≤ toInt64 (servicesConfig c base).maxUploadSizeBytes →
        InInt64 (getStorageUsedByUser u s.db + fileSize)) ∧ _ :=
    ⟨fun h => ⟨h.sum, h.exact⟩, fun h => ⟨h.1, h.2⟩⟩
  rw [hexact, accepts_iff, hupload, hstorage, hmax, hquota, sizesFit]
  unfold InInt64 at hsize ⊢
  generalize toInt64 (getStorageUsedByUser u s.db + fileSize) = sum at hsum ⊢
  generalize getStorageUsedByUser u s.db = used at *
  generalize c.maxUploadSizeBytes.toNat = upload at *
  generalize c.maxStoragePerUserBytes.toNat = storage at *
  by_cases hpos : 0 < fileSize
  · by_cases hU : upload < 2 ^ 63
    · simp only [if_pos hU]
      by_cases hS : storage < 2 ^ 63
      · simp only [if_pos hS]
        omega
      · simp only [if_neg hS]
        omega
    · simp only [if_neg hU]
      omega
  · omega

/-- Times and sizes are those of exact integers exactly if the lifetimes leave room for the clock,
and the size is refused under either reading or all numbers are below the sign bit. -/
theorem exact_iff_fit (hsize : InInt64 fileSize) (hused : 0 ≤ getStorageUsedByUser u s.db)
    (hused' : getStorageUsedByUser u s.db < 2 ^ 63) :
    (∀ now, 0 ≤ now → now < 2 ^ 40 → TimesFit (servicesConfig c base) now) ∧
        ChecksExact (servicesConfig c base) s u conv fileSize mime uuid ↔
      lifetimesFit c ∧ sizesFit c (getStorageUsedByUser u s.db) fileSize := by
  rw [timesFit_iff, checksExact_iff c base hsize hused hused']

end Configurations

/-- The default configuration, and an upload of one byte. -/
theorem default_fits : InInt64 1 ∧ getStorageUsedByUser "u" ({} : Server).db = 0 ∧
    (∀ now, 0 ≤ now → now < 2 ^ 40 → TimesFit (servicesConfig {} default) now) ∧
    ChecksExact (servicesConfig {} default) {} "u" "c" 1 "" "x" :=
  ⟨by decide, rfl, (exact_iff_fit {} default (s := {}) (u := "u") (by decide) (by decide)
    (by decide)).mpr ⟨by decide, by decide⟩⟩

/-- A lifetime that is accepted and overflows one second after the epoch, and a limit that is
accepted and refuses every upload. -/
theorem accepted_and_not_exact :
    (∃ c, Config.loadServerConfigFile
        (some "access_token_lifetime_seconds = 9223372036854775807") {} = (.ok (), c) ∧
      ¬ TimesFit (servicesConfig c default) 1) ∧
    ∃ c, Config.loadServerConfigFile
        (some "max_upload_size_bytes = 9223372036854775808") {} = (.ok (), c) ∧
      ¬ ChecksExact (servicesConfig c default) {} "u" "c" 1 "" "x" := by
  refine ⟨⟨{ accessTokenLifetimeSeconds := 9223372036854775807 }, by decide, fun h => ?_⟩,
    { maxUploadSizeBytes := 9223372036854775808 }, by decide, fun h => ?_⟩
  · exact absurd (h.access "" "" ⟨"", "", ""⟩) (by decide)
  · exact absurd (h.exact.mpr (by decide)) (by decide)

end Arithmetic

end VoxServer
