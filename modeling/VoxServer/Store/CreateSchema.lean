import Mathlib.Data.List.Infix
import VoxServer.Sql.Rebuild

/-! # Creating and migrating the schema

The tables as `CreateSchema` declares them, and the statements it runs on the database
of an earlier version: it adds the columns that were declared later, and rebuilds the
devices, whose key was the device id alone, with the tables that refer to them.
-/

namespace VoxServer.Migration

open Sql

/-! ### The tables -/

def users : Definition where
  columns := [
    .text "user_id",
    (Column.text "username").required,
    (Column.text "password_salt").required,
    (Column.text "password_verifier").required,
    (Column.integer "created_at").required,
    .integer "disabled_at",
    (Column.integer "sync_key_version").required.defaultsTo (.integer 0),
    (Column.text "wrapped_sync_key").required.defaultsTo (.text ""),
    (Column.text "sync_wrap_salt").required.defaultsTo (.text ""),
    (Column.text "sync_wrap_params").required.defaultsTo (.text "")]
  primaryKey := ["user_id"]
  unique := [["username"]]

def devices : Definition where
  columns := [
    (Column.text "user_id").required,
    (Column.text "device_id").required,
    .text "identity_key_public",
    .text "signed_prekey_public",
    .text "signed_prekey_signature",
    .integer "last_prekey_refresh_at",
    (Column.integer "client_protocol_version").defaultsTo (.integer 1),
    (Column.text "device_label").required.defaultsTo (.text ""),
    (Column.integer "created_at").required.defaultsTo (.integer 0),
    (Column.integer "last_seen_at").required.defaultsTo (.integer 0),
    .integer "revoked_at"]
  primaryKey := ["user_id", "device_id"]
  foreignKeys := [⟨["user_id"], "users", ["user_id"]⟩]

def oneTimePrekeys : Definition where
  columns := [
    .text "prekey_id",
    (Column.text "user_id").required,
    (Column.text "device_id").required,
    (Column.text "prekey_public").required,
    .integer "consumed_at"]
  primaryKey := ["prekey_id"]
  foreignKeys := [⟨["user_id", "device_id"], "devices", ["user_id", "device_id"]⟩]

def sessions : Definition where
  columns := [
    .text "session_id",
    (Column.text "user_id").required,
    (Column.text "device_id").required,
    (Column.text "access_token_hash").required,
    (Column.text "refresh_token_hash").required,
    (Column.integer "access_expires_at").required,
    (Column.integer "refresh_expires_at").required,
    (Column.integer "created_at").required,
    .integer "revoked_at"]
  primaryKey := ["session_id"]
  unique := [["access_token_hash"], ["refresh_token_hash"]]
  foreignKeys := [
    ⟨["user_id"], "users", ["user_id"]⟩,
    ⟨["user_id", "device_id"], "devices", ["user_id", "device_id"]⟩]

def conversations : Definition where
  columns := [
    .text "conversation_id",
    (Column.integer "type").required,
    (Column.text "created_by").required,
    (Column.integer "created_at").required,
    .text "policy_blob",
    (Column.integer "membership_version").required.defaultsTo (.integer 0)]
  primaryKey := ["conversation_id"]
  foreignKeys := [⟨["created_by"], "users", ["user_id"]⟩]

def conversationMembers : Definition where
  columns := [
    (Column.text "conversation_id").required,
    (Column.text "user_id").required,
    (Column.integer "role").required.defaultsTo (.integer 2),
    (Column.integer "added_at").required,
    .integer "removed_at"]
  primaryKey := ["conversation_id", "user_id"]
  foreignKeys := [
    ⟨["conversation_id"], "conversations", ["conversation_id"]⟩,
    ⟨["user_id"], "users", ["user_id"]⟩]

def channelSubscriptions : Definition where
  columns := [
    (Column.text "conversation_id").required,
    (Column.text "user_id").required,
    (Column.integer "subscribed_at").required,
    .integer "unsubscribed_at"]
  primaryKey := ["conversation_id", "user_id"]
  foreignKeys := [
    ⟨["conversation_id"], "conversations", ["conversation_id"]⟩,
    ⟨["user_id"], "users", ["user_id"]⟩]

def encryptedEnvelopes : Definition where
  columns := [
    .text "envelope_id",
    (Column.text "conversation_id").required,
    (Column.text "sender_user_id").required,
    (Column.text "sender_device_id").required,
    (Column.blob "ciphertext").required,
    (Column.integer "server_timestamp").required,
    (Column.integer "envelope_type").required.defaultsTo (.integer 0),
    .integer "retention_until",
    .integer "ordering_epoch"]
  primaryKey := ["envelope_id"]
  foreignKeys := [
    ⟨["conversation_id"], "conversations", ["conversation_id"]⟩,
    ⟨["sender_user_id", "sender_device_id"], "devices", ["user_id", "device_id"]⟩]

def deliveryState : Definition where
  columns := [
    (Column.text "envelope_id").required,
    (Column.text "target_user_id").required,
    (Column.text "target_device_id").required,
    (Column.integer "queued_at").required,
    .integer "delivered_at",
    .integer "acked_at"]
  primaryKey := ["envelope_id", "target_user_id", "target_device_id"]
  foreignKeys := [
    ⟨["envelope_id"], "encrypted_envelopes", ["envelope_id"]⟩,
    ⟨["target_user_id", "target_device_id"], "devices", ["user_id", "device_id"]⟩]

def attachmentMetadata : Definition where
  columns := [
    .text "attachment_id",
    (Column.text "user_id").required,
    (Column.text "conversation_id").required,
    (Column.integer "file_size").required,
    .text "mime_hint",
    .text "ciphertext_hash",
    .text "blob_path",
    (Column.integer "upload_complete").required.defaultsTo (.integer 0),
    (Column.integer "created_at").required,
    .integer "retention_until"]
  primaryKey := ["attachment_id"]
  foreignKeys := [
    ⟨["user_id"], "users", ["user_id"]⟩,
    ⟨["conversation_id"], "conversations", ["conversation_id"]⟩]

def syncRecords : Definition where
  columns := [
    .integer "id",
    (Column.text "user_id").required,
    (Column.text "collection").required,
    (Column.text "record_id").required,
    (Column.text "ciphertext").required,
    (Column.text "content_hash").required,
    (Column.integer "version").required,
    (Column.integer "deleted").required.defaultsTo (.integer 0),
    (Column.integer "server_updated_at").required]
  primaryKey := ["id"]
  unique := [["user_id", "collection", "record_id"]]
  foreignKeys := [⟨["user_id"], "users", ["user_id"]⟩]
  autoincrement := true

def syncIndex : Index :=
  ⟨"idx_sync_records_user_coll_time", "sync_records",
    ["user_id", "collection", "server_updated_at", "id"]⟩

/-! ### The statements -/

/-- A statement whose exception is ignored if its text holds the word. -/
def tryExec (s : Statement) (db : Db) : Except Error Db :=
  match db.exec s with
  | .ok db' => .ok db'
  | .error e => if "duplicate".toList <:+: e.message.toList then .ok db else .error e

/-- The columns `MigrateLegacySchema` adds. -/
def addedColumns : List (String × Column) := [
  ("users", (Column.integer "sync_key_version").required.defaultsTo (.integer 0)),
  ("users", (Column.text "wrapped_sync_key").required.defaultsTo (.text "")),
  ("users", (Column.text "sync_wrap_salt").required.defaultsTo (.text "")),
  ("users", (Column.text "sync_wrap_params").required.defaultsTo (.text "")),
  ("devices", (Column.text "device_label").required.defaultsTo (.text "")),
  ("devices", (Column.integer "created_at").required.defaultsTo (.integer 0)),
  ("devices", (Column.integer "last_seen_at").required.defaultsTo (.integer 0)),
  ("devices", .integer "revoked_at"),
  ("conversations", (Column.integer "membership_version").required.defaultsTo (.integer 0))]

def copyDevices : Statement :=
  .insertSelect "devices"
    ["user_id", "device_id", "identity_key_public", "signed_prekey_public",
      "signed_prekey_signature", "last_prekey_refresh_at", "client_protocol_version",
      "device_label", "created_at", "last_seen_at", "revoked_at"]
    (.table "devices_old")
    [.left "user_id", .left "device_id", .left "identity_key_public",
      .left "signed_prekey_public", .left "signed_prekey_signature",
      .left "last_prekey_refresh_at", .left "client_protocol_version", .left "device_label",
      .left "created_at", .left "last_seen_at", .left "revoked_at"]

def copyPrekeys : Statement :=
  .insertSelect "one_time_prekeys"
    ["prekey_id", "user_id", "device_id", "prekey_public", "consumed_at"]
    (.join "one_time_prekeys_old" "device_id" "devices" "device_id")
    [.left "prekey_id", .right "user_id", .left "device_id", .left "prekey_public",
      .left "consumed_at"]

def copySessions : Statement := .insertSelectAll "sessions" "sessions_old"

def copyEnvelopes : Statement :=
  .insertSelect "encrypted_envelopes"
    ["envelope_id", "conversation_id", "sender_user_id", "sender_device_id", "ciphertext",
      "server_timestamp", "envelope_type", "retention_until", "ordering_epoch"]
    (.join "encrypted_envelopes_old" "sender_device_id" "devices" "device_id")
    [.left "envelope_id", .left "conversation_id", .right "user_id", .left "sender_device_id",
      .left "ciphertext", .left "server_timestamp", .left "envelope_type",
      .left "retention_until", .left "ordering_epoch"]

def copyDeliveryState : Statement :=
  .insertSelect "delivery_state"
    ["envelope_id", "target_user_id", "target_device_id", "queued_at", "delivered_at", "acked_at"]
    (.join "delivery_state_old" "target_device_id" "devices" "device_id")
    [.left "envelope_id", .right "user_id", .left "target_device_id", .left "queued_at",
      .left "delivered_at", .left "acked_at"]

/-- The transaction: an exception in it leaves the database as it was, and is passed on. -/
def rebuildTables (db : Db) : Except Error Db := do
  let db ← db.run (Db.rebuild "devices" "devices_old" devices copyDevices)
  let db ← db.run
    (Db.rebuild "one_time_prekeys" "one_time_prekeys_old" oneTimePrekeys copyPrekeys)
  let db ← db.run (Db.rebuild "sessions" "sessions_old" sessions copySessions)
  let db ← db.run
    (Db.rebuild "encrypted_envelopes" "encrypted_envelopes_old" encryptedEnvelopes copyEnvelopes)
  db.run (Db.rebuild "delivery_state" "delivery_state_old" deliveryState copyDeliveryState)

def migrateDevicesCompositePrimaryKey (db : Db) : Except Error Db :=
  match db.table? "devices" with
  | none => .ok db
  | some t =>
    if t.definition.primaryKey.length ≥ 2 then .ok db
    else do
      let db ← db.exec (.foreignKeys false)
      let db ← rebuildTables db
      db.exec (.foreignKeys true)

def migrateLegacySchema (db : Db) : Except Error Db := do
  let db ← migrateDevicesCompositePrimaryKey db
  addedColumns.foldlM (fun db p => tryExec (.addColumn p.1 p.2) db) db

def createSchema (db : Db) : Except Error Db := do
  let db ← db.run [
    .createTableIfNotExists "users" users,
    .createTableIfNotExists "devices" devices,
    .createTableIfNotExists "one_time_prekeys" oneTimePrekeys,
    .createTableIfNotExists "sessions" sessions,
    .createTableIfNotExists "conversations" conversations,
    .createTableIfNotExists "conversation_members" conversationMembers,
    .createTableIfNotExists "channel_subscriptions" channelSubscriptions,
    .createTableIfNotExists "encrypted_envelopes" encryptedEnvelopes]
  let db ← tryExec (.addColumn "encrypted_envelopes" (.integer "ordering_epoch")) db
  let db ← db.run [
    .createTableIfNotExists "delivery_state" deliveryState,
    .createTableIfNotExists "attachment_metadata" attachmentMetadata,
    .createTableIfNotExists "sync_records" syncRecords,
    .createIndexIfNotExists syncIndex]
  migrateLegacySchema db

end VoxServer.Migration
