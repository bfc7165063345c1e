import VoxServer.Interleaving.Program
import VoxServer.Store.Device
import VoxServer.Store.Session
import VoxServer.Store.SyncState
import VoxServer.Store.Attachment
import VoxServer.Admin.Deletion
import VoxServer.Attachments.BlobStorage

/-! # The atomic calls of the server

Every service works on the repositories, the delivery manager, the push registry,
the blob files and the clock through calls that are atomic, each under one lock.
-/

namespace VoxServer

open Interleaving

/-- The configured limits and lifetimes, and the functions of libraries that are used. -/
structure ServerConfig where
  maxGroupSize : ℕ := 256
  maxChannelSize : ℕ := 10000
  maxQueueDepthPerDevice : ℕ := 1000
  accessTokenLifetimeSeconds : Timestamp := 15 * 60
  refreshTokenLifetimeSeconds : Timestamp := 30 * 86400
  maxWsOutboundQueue : ℕ := 256
  maxUploadSizeBytes : ℕ := 100 * 1024 * 1024
  maxStoragePerUserBytes : ℕ := 1024 * 1024 * 1024
  messageRetentionSeconds : Timestamp := 90 * 86400
  attachmentRetentionSeconds : Timestamp := 90 * 86400
  maxHttpBodyBytes : ℕ := 2 * 1024 * 1024
  blobStoragePath : String := "blobs"
  sessionTokenPepper : String := ""
  /-- Without one the admin routes are closed. -/
  adminToken : String := ""
  hmacSha256Hex : String → String → String
  /-- The verifier of a password under a salt, or the message of an Argon2 error. -/
  argon2id : String → String → Except String String
  /-- The value that a text stands for, or the message of a parse error. -/
  parseJson : String → Except String Json := fun _ => .ok (.obj [])
  serializeJson : Json → String := fun _ => ""

/-- A configuration with simple functions in place of the libraries, to evaluate runs. -/
instance : Inhabited ServerConfig where
  default := { hmacSha256Hex := fun _ token => token, argon2id := fun p salt => .ok (salt ++ p) }

def ServerConfig.withBodies (bodies : List (String × Json)) : ServerConfig :=
  { (default : ServerConfig) with
    parseJson := fun body => (bodies.lookup body).elim (.error "syntax error") .ok }

inductive Call
  | now
  | users (c : UserCall)
  | devices (c : DeviceCall)
  | sessions (c : SessionCall)
  | conversations (c : ConversationCall)
  | envelopes (c : EnvelopeCall)
  | attachments (c : AttachmentCall)
  | syncState (c : SyncCall)
  | admin (c : AdminCall)
  | delivery (c : DeliveryCall)
  | wsPush (c : RegistryCall)
  | blobs (c : BlobCall)
  | serverStats
  deriving DecidableEq, Repr

namespace Call

@[reducible] def Reply : Call → Type
  | now => Timestamp
  | users c => c.Reply
  | devices c => c.Reply
  | sessions c => c.Reply
  | conversations c => c.Reply
  | envelopes c => c.Reply
  | attachments c => c.Reply
  | syncState c => c.Reply
  | admin c => c.Reply
  | delivery c => c.Reply
  | wsPush _ => Unit
  | blobs c => c.Reply
  | serverStats => ServerStats

/-- The reply of a repository call, and the server with the database that it left. -/
def onDb {α : Type} (r : α × Database) (s : Server) : α × Server := (r.1, { s with db := r.2 })

def exec (cfg : ServerConfig) : (c : Call) → Server → c.Reply × Server
  | now, s => (s.clock, s)
  | users c, s => onDb (c.exec s.db) s
  | devices c, s => onDb (c.exec s.clock s.db) s
  | sessions c, s => onDb (c.exec s.db) s
  | conversations c, s => onDb (c.exec s.db) s
  | envelopes c, s => onDb (c.exec s.db) s
  | attachments c, s => onDb (c.exec s.db) s
  | syncState c, s => onDb (c.exec s.db) s
  | admin c, s => onDb (c.exec s.db) s
  | delivery c, s => c.exec cfg.maxQueueDepthPerDevice s
  | wsPush c, s => ((), c.exec s)
  | blobs c, s => c.exec s
  | serverStats, s => (AdminService.getServerStats s.clock s.db, s)

/-- Whether the call is one of the admin tool, which deletes accounts. -/
def isAdmin : Call → Bool
  | admin _ => true
  | _ => false

def removes : Call → Bool
  | envelopes (.deleteExpired _) => true
  | admin _ => true
  | _ => false

def registersDevice (k : UserId × DeviceId) : Call → Bool
  | devices (.registerDevice r) => r.key = k
  | _ => false

def revokesDevice (u : UserId) (d : DeviceId) : Call → Server → Bool
  | devices (.revokeDevice u' d' time), s =>
    u' = u ∧ d' = d ∧ (DeviceRepository.revokeDevice u d time s.db).1 = .ok ()
  | _, _ => false

/-- The tables that a call can change. -/
def Frame : Call → Database → Database → Prop
  | now, db, db' => db' = db
  | users _, db, db' => ∃ us, db' = { db with users := us }
  | devices _, db, db' => ∃ ds ps, db' = { db with devices := ds, oneTimePrekeys := ps }
  | sessions _, db, db' => ∃ ss, db' = { db with sessions := ss }
  | conversations _, db, db' => ∃ cs ms ss, db' = { db with
      conversations := cs, conversationMembers := ms, channelSubscriptions := ss }
  | envelopes _, db, db' => ∃ es ds, db' = { db with encryptedEnvelopes := es, deliveryState := ds }
  | attachments _, db, db' => ∃ as, db' = { db with attachmentMetadata := as }
  | syncState _, db, db' => ∃ rs n, db' = { db with syncRecords := rs, syncSequence := n }
  | admin (.deleteUserRows u), db, db' => db' = db ∨ db' = AdminService.withoutUser u db
  | delivery _, db, db' => ∃ ds, db' = { db with deliveryState := ds }
  | wsPush _, db, db' => db' = db
  | blobs _, db, db' => db' = db
  | serverStats, db, db' => db' = db

theorem exec_frame (cfg : ServerConfig) (c : Call) (s : Server) :
    c.Frame s.db (c.exec cfg s).2.db := by
  cases c with
  | now => rfl
  | serverStats => rfl
  | users c => exact (c.exec_effect s.db).frame
  | devices c => exact (c.exec_effect s.clock s.db).frame
  | sessions c => exact (c.exec_effect s.db).frame
  | conversations c => exact (c.exec_effect s.db).frame
  | envelopes c => exact (c.exec_effect s.db).frame
  | attachments c => exact (c.exec_effect s.db).frame
  | syncState c =>
    rcases c.exec_cases s.db with ⟨-, he⟩ | ⟨w, -, -, hcom⟩
    · exact ⟨_, _, he⟩
    · generalize hdb : (c.exec s.db).2 = db' at hcom
      cases hcom with
      | update => exact ⟨_, _, hdb⟩
      | insert => exact ⟨_, _, hdb⟩
  | admin c => cases c with | deleteUserRows u => exact AdminCall.exec_cases u s.db
  | delivery c =>
    rcases c.exec_db cfg.maxQueueDepthPerDevice s with he | ⟨u, d, qs, -, he⟩
    · exact ⟨_, he⟩
    · obtain ⟨ds, hf⟩ := @DeliveryManager.persistPending_frame u d s.clock qs s.db
      exact ⟨_, he.trans hf⟩
  | wsPush c =>
    obtain ⟨f, ps, he⟩ := c.exec_frame s
    simp only [Frame, exec, he]
  | blobs c =>
    obtain ⟨bs, he⟩ := c.exec_frame s
    simp only [Frame, exec, he]

variable (cfg : ServerConfig) {c : Call} {s : Server}

/-- The tables of a database without some of its rows. -/
structure Reduced (db db' : Database) : Prop where
  users : db'.users.Sublist db.users
  devices : db'.devices.Sublist db.devices
  conversationMembers : db'.conversationMembers.Sublist db.conversationMembers
  channelSubscriptions : db'.channelSubscriptions.Sublist db.channelSubscriptions
  encryptedEnvelopes : db'.encryptedEnvelopes.Sublist db.encryptedEnvelopes
  deliveryState : db'.deliveryState.Sublist db.deliveryState
  attachmentMetadata : db'.attachmentMetadata.Sublist db.attachmentMetadata

theorem exec_reduced (ha : c.isAdmin) : Reduced s.db (c.exec cfg s).2.db := by
  cases c with
  | admin a =>
    cases a with | deleteUserRows u =>
    have hdb : _ ∨ _ := exec_frame cfg (.admin (.deleteUserRows u)) s
    rcases hdb with hdb | hdb
    · rw [hdb]
      constructor <;> exact List.Sublist.refl _
    · rw [hdb]
      exact ⟨List.filter_sublist, List.filter_sublist, List.filter_sublist, List.filter_sublist,
        List.filter_sublist, List.filter_sublist.trans List.filter_sublist, List.filter_sublist⟩
  | _ => cases ha

theorem exec_syncRecords (hc : ∀ a, c ≠ .syncState a) :
    (c.exec cfg s).2.db.syncRecords = s.db.syncRecords ∧
      (c.exec cfg s).2.db.syncSequence = s.db.syncSequence := by
  have h := exec_frame cfg c s
  cases c with
  | syncState a => exact absurd rfl (hc a)
  | admin a => cases a; simp only [Frame, AdminService.withoutUser] at h; grind
  | _ => simp only [Frame] at h; grind

/-- Envelopes are stored and expire in their repository; otherwise only deleting a user removes
some. -/
theorem exec_encryptedEnvelopes (hc : ∀ a, c ≠ .envelopes a) (ha : ¬ c.isAdmin) :
    (c.exec cfg s).2.db.encryptedEnvelopes = s.db.encryptedEnvelopes := by
  have h := exec_frame cfg c s
  cases c with
  | envelopes a => exact absurd rfl (hc a)
  | admin a => exact absurd rfl ha
  | _ => simp only [Frame] at h; grind

theorem exec_keeps_envelope (hr : ¬ c.removes) {e : EnvelopeRecord}
    (h : e ∈ s.db.encryptedEnvelopes) : e ∈ (c.exec cfg s).2.db.encryptedEnvelopes := by
  by_cases hc : ∃ a, c = .envelopes a
  · obtain ⟨a, rfl⟩ := hc
    exact (a.exec_effect s.db).keeps_envelope (by rintro now rfl; exact hr rfl) h
  · rwa [exec_encryptedEnvelopes cfg (not_exists.mp hc) fun ha => hr ?_]
    cases c with
    | admin a => rfl
    | _ => cases ha

theorem envelope_of_exec {e : EnvelopeRecord}
    (h : e ∈ (c.exec cfg s).2.db.encryptedEnvelopes) : e ∈ s.db.encryptedEnvelopes ∨
      c = .envelopes (.storeEnvelope e) ∧
        ∀ r ∈ s.db.encryptedEnvelopes, r.envelopeId ≠ e.envelopeId := by
  by_cases hc : ∃ a, c = .envelopes a
  · obtain ⟨a, rfl⟩ := hc
    exact ((a.exec_effect s.db).envelope_mem h).imp_right fun ⟨he, hn⟩ => ⟨congrArg _ he, hn⟩
  · left
    by_cases ha : c.isAdmin
    · exact (exec_reduced cfg ha).encryptedEnvelopes.subset h
    · rwa [exec_encryptedEnvelopes cfg (not_exists.mp hc) ha] at h

/-- Delivery states change in the envelope repository and when a device is switched to offline
delivery; otherwise only deleting a user removes some. -/
theorem exec_deliveryState (hc : ∀ a, c ≠ .envelopes a) (hd : ∀ a, c ≠ .delivery a)
    (ha : ¬ c.isAdmin) : (c.exec cfg s).2.db.deliveryState = s.db.deliveryState := by
  have h := exec_frame cfg c s
  cases c with
  | envelopes a => exact absurd rfl (hc a)
  | delivery a => exact absurd rfl (hd a)
  | admin a => exact absurd rfl ha
  | _ => simp only [Frame] at h; grind

theorem exec_deliveryState_sublist (hc : ∀ a, c ≠ .envelopes a) (hd : ∀ a, c ≠ .delivery a) :
    List.Sublist (c.exec cfg s).2.db.deliveryState s.db.deliveryState := by
  by_cases ha : c.isAdmin
  · exact (exec_reduced cfg ha).deliveryState
  · rw [exec_deliveryState cfg hc hd ha]

theorem exec_queues (hd : ∀ a, c ≠ .delivery a) : (c.exec cfg s).2.queues = s.queues := by
  cases c with
  | delivery a => exact absurd rfl (hd a)
  | wsPush a =>
    obtain ⟨f, ps, he⟩ := a.exec_frame s
    simp only [exec, he]
  | blobs a =>
    obtain ⟨bs, he⟩ := a.exec_frame s
    simp only [exec, he]
  | _ => rfl

/-- Devices and prekeys change in their repository; otherwise only deleting a user removes some. -/
theorem exec_devices (hc : ∀ a, c ≠ .devices a) (ha : ¬ c.isAdmin) :
    (c.exec cfg s).2.db.devices = s.db.devices ∧
      (c.exec cfg s).2.db.oneTimePrekeys = s.db.oneTimePrekeys := by
  have h := exec_frame cfg c s
  cases c with
  | devices a => exact absurd rfl (hc a)
  | admin a => exact absurd rfl ha
  | _ => simp only [Frame] at h; grind

theorem exec_devices_subset (hc : ∀ a, c ≠ .devices a) :
    (c.exec cfg s).2.db.devices ⊆ s.db.devices := by
  by_cases ha : c.isAdmin
  · exact (exec_reduced cfg ha).devices.subset
  · rw [(exec_devices cfg hc ha).1]
    exact List.Subset.refl _

theorem exec_keeps_device (ha : ¬ c.isAdmin) {k : UserId × DeviceId}
    (h : ∃ d ∈ s.db.devices, d.key = k) : ∃ d ∈ (c.exec cfg s).2.db.devices, d.key = k := by
  by_cases hc : ∃ a, c = .devices a
  · obtain ⟨a, rfl⟩ := hc
    exact (a.exec_effect s.clock s.db).keeps_device h
  · rwa [(exec_devices cfg (not_exists.mp hc) ha).1]

theorem activeDevice_of_exec {k : UserId × DeviceId} (hc : ¬ c.registersDevice k)
    (h : (c.exec cfg s).2.db.ActiveDevice k) : s.db.ActiveDevice k := by
  by_cases hd : ∃ a, c = .devices a
  · obtain ⟨a, rfl⟩ := hd
    refine (a.exec_effect s.clock s.db).active ?_ h
    rintro d rfl
    simpa [registersDevice] using hc
  · obtain ⟨r, hr, hk⟩ := h
    exact ⟨r, exec_devices_subset cfg (not_exists.mp hd) hr, hk⟩

theorem revokedDevice_of_revokes {u : UserId} {d : DeviceId} (h : c.revokesDevice u d s) :
    (c.exec cfg s).2.db.RevokedDevice (u, d) := by
  unfold revokesDevice at h
  split at h
  · rename_i u' d' time
    simp only [decide_eq_true_eq] at h
    obtain ⟨rfl, rfl, hok⟩ := h
    rcases DeviceRepository.revokeDevice_cases u' d' time s.db with ⟨⟨r, hr, hk, hn⟩, he⟩ | ⟨-, he⟩
    · simp only [exec, onDb, DeviceCall.exec, he]
      refine ⟨_, Table.mem_updateWhere.mpr ⟨r, hr, rfl⟩, ?_⟩
      rw [if_pos (by simpa using ⟨hk, hn⟩)]
      exact ⟨hk, by simp⟩
    · rw [he] at hok
      cases hok
  · cases h

theorem revokedDevice_exec {k : UserId × DeviceId} (ha : ¬ c.isAdmin) (h : s.db.RevokedDevice k) :
    (c.exec cfg s).2.db.RevokedDevice k := by
  by_cases hc : ∃ a, c = .devices a
  · obtain ⟨a, rfl⟩ := hc
    exact (a.exec_effect s.clock s.db).revoked h
  · unfold Database.RevokedDevice
    rwa [(exec_devices cfg (not_exists.mp hc) ha).1]

theorem exec_conversations (hc : ∀ a, c ≠ .conversations a) :
    (c.exec cfg s).2.db.conversations = s.db.conversations := by
  have h := exec_frame cfg c s
  cases c with
  | conversations a => exact absurd rfl (hc a)
  | admin a => cases a; simp only [Frame, AdminService.withoutUser] at h; grind
  | _ => simp only [Frame] at h; grind

theorem exec_keeps_conversation {r : ConversationRecord} (hr : r ∈ s.db.conversations) :
    ∃ r' ∈ (c.exec cfg s).2.db.conversations,
      r'.conversationId = r.conversationId ∧ r'.type = r.type ∧ r'.createdBy = r.createdBy := by
  by_cases hc : ∃ a, c = .conversations a
  · obtain ⟨a, rfl⟩ := hc
    exact (a.exec_effect s.db).keeps_conversation hr
  · rw [exec_conversations cfg (not_exists.mp hc)]
    exact ⟨r, hr, rfl, rfl, rfl⟩

theorem conversation_of_exec {r : ConversationRecord}
    (hr : r ∈ (c.exec cfg s).2.db.conversations) :
    (∃ r₀ ∈ s.db.conversations, r₀.conversationId = r.conversationId ∧ r₀.type = r.type) ∨
      c = .conversations (.createConversation r) ∧
        ∀ r₀ ∈ s.db.conversations, r₀.conversationId ≠ r.conversationId := by
  by_cases hc : ∃ a, c = .conversations a
  · obtain ⟨a, rfl⟩ := hc
    exact (a.conversation_of_exec hr).imp_right fun ⟨he, hnew⟩ => ⟨congrArg _ he, hnew⟩
  · rw [exec_conversations cfg (not_exists.mp hc)] at hr
    exact .inl ⟨r, hr, rfl, rfl⟩

/-- Whether the call ends the participation of the user in the conversation. -/
def leaves (k : ConversationId × UserId) : Call → Bool
  | conversations c => c.leaves k
  | _ => false

/-- Who takes part changes only in the repository of conversations, or when a user is deleted. -/
theorem exec_memberships (hc : ∀ a, c ≠ .conversations a) (ha : ¬ c.isAdmin) :
    (c.exec cfg s).2.db.conversationMembers = s.db.conversationMembers ∧
      (c.exec cfg s).2.db.channelSubscriptions = s.db.channelSubscriptions := by
  have h := exec_frame cfg c s
  cases c with
  | conversations a => exact absurd rfl (hc a)
  | admin a => exact absurd rfl ha
  | _ => simp only [Frame] at h; grind

theorem exec_memberships_subset (hc : ∀ a, c ≠ .conversations a) :
    (c.exec cfg s).2.db.conversationMembers ⊆ s.db.conversationMembers ∧
      (c.exec cfg s).2.db.channelSubscriptions ⊆ s.db.channelSubscriptions := by
  by_cases ha : c.isAdmin
  · have hr := exec_reduced cfg (s := s) ha
    exact ⟨hr.conversationMembers.subset, hr.channelSubscriptions.subset⟩
  · obtain ⟨hm, hs⟩ := exec_memberships cfg (s := s) hc ha
    rw [hm, hs]
    exact ⟨List.Subset.refl _, List.Subset.refl _⟩

theorem exec_participant (hv : s.db.Valid) (ha : ¬ c.isAdmin) {conv : ConversationId} {u : UserId}
    (hl : ¬ c.leaves (conv, u)) (h : ConversationRepository.isUserInConversation conv u s.db) :
    ConversationRepository.isUserInConversation conv u (c.exec cfg s).2.db := by
  by_cases hc : ∃ a, c = .conversations a
  · obtain ⟨a, rfl⟩ := hc
    exact a.exec_participant hv hl h
  · obtain ⟨hm, hs⟩ := exec_memberships cfg (s := s) (not_exists.mp hc) ha
    rwa [ConversationRepository.isUserInConversation_congr
      (exec_conversations cfg (not_exists.mp hc)) hm hs]

theorem exec_users (hc : ∀ a, c ≠ .users a) (ha : ¬ c.isAdmin) :
    (c.exec cfg s).2.db.users = s.db.users := by
  have h := exec_frame cfg c s
  cases c with
  | users a => exact absurd rfl (hc a)
  | admin a => exact absurd rfl ha
  | _ => simp only [Frame] at h; grind

theorem exec_users_subset (hc : ∀ a, c ≠ .users a) : (c.exec cfg s).2.db.users ⊆ s.db.users := by
  by_cases ha : c.isAdmin
  · exact (exec_reduced cfg ha).users.subset
  · rw [exec_users cfg hc ha]
    exact List.Subset.refl _

theorem userId_of_exec {u : UserRecord} (hu : u ∈ (c.exec cfg s).2.db.users) :
    (∃ r ∈ s.db.users, r.userId = u.userId) ∨
      ∃ r, c = .users (.createUser r) ∧ r.userId = u.userId := by
  by_cases hc : ∃ a, c = .users a
  · obtain ⟨a, rfl⟩ := hc
    exact ((a.exec_effect s.db).userId hu).imp_right fun ⟨r, hr, he⟩ => ⟨r, congrArg _ hr, he⟩
  · exact .inl ⟨u, exec_users_subset cfg (not_exists.mp hc) hu, rfl⟩

theorem exec_attachmentMetadata (hc : ∀ a, c ≠ .attachments a) (ha : ¬ c.isAdmin) :
    (c.exec cfg s).2.db.attachmentMetadata = s.db.attachmentMetadata := by
  have h := exec_frame cfg c s
  cases c with
  | attachments a => exact absurd rfl (hc a)
  | admin a => exact absurd rfl ha
  | _ => simp only [Frame] at h; grind

theorem attachments_of_exec :
    (c.exec cfg s).2.db.attachmentMetadata.Sublist s.db.attachmentMetadata ∨
    (∃ i hash, c = .attachments (.markUploadComplete i hash) ∧
      (c.exec cfg s).2.db.attachmentMetadata = Table.updateWhere (·.attachmentId = i)
        (AttachmentRepository.completed hash) s.db.attachmentMetadata) ∨
    ∃ r, c = .attachments (.createAttachmentMeta r) ∧ (c.exec cfg s).2.db.attachmentMetadata =
      s.db.attachmentMetadata ++ [{ r with uploadComplete := false, ciphertextHash := "" }] := by
  by_cases hc : ∃ a, c = .attachments a
  · obtain ⟨a, rfl⟩ := hc
    have he : AttachmentCall.Effect s.db a (exec cfg (.attachments a) s).2.db := a.exec_effect s.db
    generalize (exec cfg (.attachments a) s).2.db = db' at he ⊢
    cases he with
    | same => exact .inl (List.Sublist.refl _)
    | create r _ h =>
      obtain ⟨-, -, -, rfl⟩ := AttachmentRepository.insertAttachment_ok h
      exact .inr (.inr ⟨r, rfl, rfl⟩)
    | complete i hash => exact .inr (.inl ⟨i, hash, rfl, rfl⟩)
    | expire now => exact .inl List.filter_sublist
  · left
    by_cases ha : c.isAdmin
    · exact (exec_reduced cfg ha).attachmentMetadata
    · rw [exec_attachmentMetadata cfg (not_exists.mp hc) ha]

/-- Every call keeps the keys and references of the database. -/
theorem exec_valid (cfg : ServerConfig) (c : Call) {s : Server} (h : s.db.Valid) :
    (c.exec cfg s).2.db.Valid := by
  cases c with
  | now => exact h
  | serverStats => exact h
  | users c => exact (c.exec_effect s.db).valid h
  | devices c => exact (c.exec_effect s.clock s.db).valid h
  | sessions c => exact (c.exec_effect s.db).valid h
  | conversations c => exact (c.exec_effect s.db).valid h
  | envelopes c => exact (c.exec_effect s.db).valid h
  | attachments c => exact (c.exec_effect s.db).valid h
  | syncState c => exact c.exec_valid h
  | admin c => exact c.exec_valid h
  | delivery c => exact c.exec_valid _ h
  | wsPush c =>
    obtain ⟨f, ps, he⟩ := c.exec_frame s
    simp only [exec, he]
    exact h
  | blobs c =>
    obtain ⟨bs, he⟩ := c.exec_frame s
    simp only [exec, he]
    exact h

end Call

/-- A piece of the server's code: a program of atomic calls. -/
abbrev ServerProg := Prog Call Call.Reply

abbrev ask (c : Call) : ServerProg c.Reply := Prog.perform c

end VoxServer
