import VoxServer.Server.Call

/-! # The relay service

Sending checks the sender, stores the envelope and fans it out to the devices of
the participants one by one: into the device's queue, or into the delivery state
when the queue is full.
-/

namespace VoxServer

open Interleaving

structure SendMessageRequest where
  senderUserId : UserId
  senderDeviceId : DeviceId
  conversationId : ConversationId
  ciphertext : String
  envelopeId : String := ""
  envelopeType : ℤ := 0
  orderingEpoch : Option ℤ := none
  deriving DecidableEq, Repr

structure SendMessageResponse where
  envelopeId : EnvelopeId
  serverTimestamp : Timestamp
  deliveredToCount : ℕ
  deriving DecidableEq, Repr

namespace RelayService

variable (cfg : ServerConfig)

/-- `policy_blob.find(...) != npos` for the policy that lets everyone post. -/
def everyoneMayPost (policyBlob : String) : Bool :=
  policyBlob.toList.tails.any ("\"channel_post_policy\":\"everyone\"".toList.isPrefixOf ·)

/-- The checks of a sender, which end with the conversation. -/
def authorize (request : SendMessageRequest) : ServerProg (Result ConversationRecord) := do
  if request.ciphertext = "" then
    return .error ⟨.invalidArgument, "Ciphertext is required"⟩
  let some senderDevice ←
      ask (.devices (.findByUserAndDevice request.senderUserId request.senderDeviceId))
    | return .error ⟨.unauthorized, "Sender device not found"⟩
  let some conv ← ask (.conversations (.findById request.conversationId))
    | return .error ⟨.notFound, "Conversation not found"⟩
  if !(← ask (.conversations
      (.isUserInConversation request.conversationId senderDevice.userId))) then
    return .error ⟨.forbidden, "Sender is not a member of this conversation"⟩
  if conv.type = .channel then
    if !(← ask (.conversations
        (.isUserInConversation request.conversationId senderDevice.userId))) then
      return .error ⟨.forbidden, "Not subscribed to channel"⟩
    if everyoneMayPost conv.policyBlob then
      return .ok conv
    match ← ask (.conversations (.getMember request.conversationId senderDevice.userId)) with
    | none => return .error ⟨.forbidden, "Only admins/owners can publish to this channel"⟩
    | some member =>
      if member.role ≠ .owner ∧ member.role ≠ .admin then
        return .error ⟨.forbidden, "Only admins/owners can publish to this channel"⟩
      return .ok conv
  return .ok conv

def newEnvelope (request : SendMessageRequest) (envelopeId : EnvelopeId) (now : Timestamp) :
    EnvelopeRecord :=
  { envelopeId, conversationId := request.conversationId, senderUserId := request.senderUserId
    senderDeviceId := request.senderDeviceId, ciphertext := request.ciphertext
    serverTimestamp := now, envelopeType := request.envelopeType
    orderingEpoch := request.orderingEpoch
    retentionUntil := if cfg.messageRetentionSeconds > 0 then
      some (toInt64 (now + cfg.messageRetentionSeconds)) else none }

def newQueued (request : SendMessageRequest) (envelopeId : EnvelopeId) (now : Timestamp) :
    QueuedEnvelope :=
  { envelopeId, conversationId := request.conversationId, senderUserId := request.senderUserId
    senderDeviceId := request.senderDeviceId, ciphertext := request.ciphertext
    serverTimestamp := now, envelopeType := request.envelopeType
    orderingEpoch := request.orderingEpoch }

def targetUsers (conv : ConversationRecord) (conversationId : ConversationId) :
    ServerProg (List UserId) := do
  if conv.type = .channel then
    ask (.conversations (.getSubscribers conversationId))
  else
    return (← ask (.conversations (.getMembers conversationId))).map (·.userId)

/-- The inner loop: one device after the other; a failed insertion is only logged. -/
def fanOutDevices (queued : QueuedEnvelope) (uid : UserId) :
    List DeviceRecord → ℕ → ServerProg ℕ
  | [], deliveredCount => return deliveredCount
  | dev :: devs, deliveredCount => do
    if dev.revokedAt.isSome then
      fanOutDevices queued uid devs deliveredCount
    else if dev.userId = queued.senderUserId ∧ dev.deviceId = queued.senderDeviceId then
      fanOutDevices queued uid devs deliveredCount
    else
      match ← ask (.delivery (.enqueue uid dev.deviceId queued)) with
      | .ok () => fanOutDevices queued uid devs (deliveredCount + 1)
      | .error _ =>
        let _ ← ask (.envelopes
          (.addDeliveryState queued.envelopeId uid dev.deviceId queued.serverTimestamp))
        fanOutDevices queued uid devs deliveredCount

/-- The outer loop: one target user after the other. -/
def fanOut (queued : QueuedEnvelope) : List UserId → ℕ → ServerProg ℕ
  | [], deliveredCount => return deliveredCount
  | uid :: uids, deliveredCount => do
    let userDevices ← ask (.devices (.getDevicesForUser uid))
    let deliveredCount ← fanOutDevices queued uid userDevices deliveredCount
    fanOut queued uids deliveredCount

def sendEnvelope (request : SendMessageRequest) (uuid : String) :
    ServerProg (Result SendMessageResponse) := do
  match ← authorize request with
  | .error e => return .error e
  | .ok conv =>
    let envelopeId := if request.envelopeId = "" then uuid else request.envelopeId
    if ← ask (.envelopes (.checkDuplicate envelopeId)) then
      return .error ⟨.duplicate, "Duplicate envelope"⟩
    let now ← ask .now
    match ← ask (.envelopes (.storeEnvelope (newEnvelope cfg request envelopeId now))) with
    | .error e => return .error e
    | .ok () =>
      let uids ← targetUsers conv request.conversationId
      let deliveredToCount ← fanOut (newQueued request envelopeId now) uids 0
      return .ok { envelopeId, serverTimestamp := now, deliveredToCount }

/-- `DeliveryManager::Acknowledge`. -/
def acknowledgeEnvelope (userId : UserId) (deviceId : DeviceId) (envelopeId : EnvelopeId) :
    ServerProg VoidResult := do
  let now ← ask .now
  ask (.envelopes (.markAcked envelopeId userId deviceId now))

end RelayService

end VoxServer
