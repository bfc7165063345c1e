import VoxServer.Auth.TokenManager

/-! # Request handlers

Handlers that work on the repositories and the push registry themselves, for the
user and device of the session that the request was authenticated with.
-/

namespace VoxServer

open Interleaving

namespace Handlers

variable (cfg : ServerConfig)

/-- The loop of `notifyUserDevicesExcept`. -/
def notifyDevices (exceptUserId : UserId) (exceptDevice : DeviceId) (jsonLine : String) :
    List DeviceRecord → ServerProg Unit
  | [] => return ()
  | d :: ds => do
    if d.revokedAt.isSome then
      notifyDevices exceptUserId exceptDevice jsonLine ds
    else if d.userId = exceptUserId ∧ d.deviceId = exceptDevice then
      notifyDevices exceptUserId exceptDevice jsonLine ds
    else
      ask (.wsPush (.notify (deviceScopeKey d.userId d.deviceId) jsonLine))
      notifyDevices exceptUserId exceptDevice jsonLine ds

def notifyUserDevicesExcept (userId exceptUserId : UserId) (exceptDevice : DeviceId)
    (jsonLine : String) : ServerProg Unit := do
  let devs ← ask (.devices (.getDevicesForUser userId))
  notifyDevices exceptUserId exceptDevice jsonLine devs

/-- The event that tells the other devices of a user about a change. -/
def userDevicesChanged (userId : UserId) : String :=
  cfg.serializeJson (.obj [("type", .str "user_devices_changed"), ("user_id", .str userId)])

/-- `DELETE /v1/me/devices/target`. -/
def deleteDevice (sessUserId : UserId) (sessDeviceId target : DeviceId) :
    ServerProg VoidResult := do
  if target = sessDeviceId then
    return .error ⟨.invalidArgument, "Cannot revoke current device"⟩
  let some _ ← ask (.devices (.findByUserAndDevice sessUserId target))
    | return .error ⟨.notFound, "Device not found"⟩
  let now ← ask .now
  match ← ask (.devices (.revokeDevice sessUserId target now)) with
  | .error e => return .error e
  | .ok () =>
    match ← TokenManager.revokeAllForDevice sessUserId target now with
    | .error e => return .error e
    | .ok () =>
      notifyUserDevicesExcept sessUserId sessUserId sessDeviceId
        (userDevicesChanged cfg sessUserId)
      return .ok ()

/-- `DELETE /v1/admin/users/userId`. -/
def deleteUser (userId : UserId) : ServerProg VoidResult := do
  let some _ ← ask (.users (.findById userId))
    | return .error ⟨.notFound, "User not found"⟩
  ask (.admin (.deleteUserRows userId))

/-- A WebSocket connection that authenticates registers itself for its device. -/
def connect (accessToken : String) (connection : ℕ) : ServerProg VoidResult := do
  let now ← ask .now
  match ← TokenManager.validateAccessToken cfg accessToken now with
  | .error e => return .error e
  | .ok session =>
    ask (.wsPush (.register (deviceScopeKey session.userId session.deviceId) connection))
    return .ok ()

def maintenance : ServerProg ℕ := do
  let now ← ask .now
  ask (.envelopes (.deleteExpired now))

end Handlers

end VoxServer
