import VoxServer.Auth.TokenManager

/-! # The authentication service

Registration, login, refresh, logout and password change, each a sequence of
separate repository calls.
-/

namespace VoxServer

open Interleaving

structure HashResult where
  salt : String
  verifier : String
  deriving DecidableEq, Repr

namespace PasswordHasher

variable (cfg : ServerConfig)

/-- Hashes under a random salt; there is none when the random source fails. -/
def hash (salt : Option String) (passwordDerivedValue : String) : Result HashResult :=
  match salt with
  | none => .error ⟨.internal, "Failed to generate random salt"⟩
  | some salt =>
    match cfg.argon2id passwordDerivedValue salt with
    | .error msg => .error ⟨.internal, "Argon2 hash failed: " ++ msg⟩
    | .ok verifier => .ok ⟨salt, verifier⟩

def verify (passwordDerivedValue salt verifier : String) : Bool :=
  cfg.argon2id passwordDerivedValue salt = .ok verifier

end PasswordHasher

structure RegisterRequest where
  username : String
  passwordDerivedValue : String
  deviceId : String
  deviceLabel : String
  identityKeyPublic : String
  signedPrekeyPublic : String
  signedPrekeySignature : String
  wrappedSyncKey : String
  syncWrapSalt : String
  syncWrapParams : String
  deriving DecidableEq, Repr

structure RegisterResponse where
  userId : UserId
  tokens : TokenPair
  deviceStatus : String
  syncKeyVersion : Int32 := 1
  deriving DecidableEq, Repr

structure LoginRequest where
  username : String
  passwordDerivedValue : String
  deviceId : String
  deviceLabel : String
  identityKeyPublic : String
  signedPrekeyPublic : String
  signedPrekeySignature : String
  deriving DecidableEq, Repr

structure LoginResponse where
  userId : UserId
  tokens : TokenPair
  deviceStatus : String
  syncKeyVersion : Int32 := 1
  deriving DecidableEq, Repr

structure RefreshRequest where
  refreshToken : String
  deviceId : String
  deriving DecidableEq, Repr

structure ChangePasswordRequest where
  currentPasswordDerivedValue : String
  newPasswordDerivedValue : String
  wrappedSyncKey : String
  syncWrapSalt : String
  syncWrapParams : String
  deriving DecidableEq, Repr

structure ChangePasswordResponse where
  syncKeyVersion : Int32 := 1
  deriving DecidableEq, Repr

namespace AuthService

variable (cfg : ServerConfig)

/-- `request.device_id`, or a generated id when it is empty. -/
def chooseDeviceId (deviceId uuid : String) : DeviceId := if deviceId = "" then uuid else deviceId

def register (request : RegisterRequest) (salt : Option String) (userUuid deviceUuid : String)
    (fresh : FreshTokens) : ServerProg (Result RegisterResponse) := do
  if request.username = "" ∨ request.passwordDerivedValue = "" then
    return .error ⟨.invalidArgument, "Username and password are required"⟩
  if request.wrappedSyncKey = "" ∨ request.syncWrapSalt = "" ∨ request.syncWrapParams = "" then
    return .error ⟨.invalidArgument,
      "wrapped_sync_key, sync_wrap_salt, and sync_wrap_params are required"⟩
  if request.identityKeyPublic = "" ∨ request.signedPrekeyPublic = "" ∨
      request.signedPrekeySignature = "" then
    return .error ⟨.invalidArgument, "Device public key material is required"⟩
  if (← ask (.users (.findByUsername request.username))).isSome then
    return .error ⟨.alreadyExists, "Username already taken"⟩
  match PasswordHasher.hash cfg salt request.passwordDerivedValue with
  | .error e => return .error e
  | .ok hashed =>
    let now ← ask .now
    let user : UserRecord :=
      { userId := userUuid, username := request.username, passwordSalt := hashed.salt
        passwordVerifier := hashed.verifier, createdAt := now, syncKeyVersion := 1
        wrappedSyncKey := request.wrappedSyncKey, syncWrapSalt := request.syncWrapSalt
        syncWrapParams := request.syncWrapParams }
    match ← ask (.users (.createUser user)) with
    | .error e => return .error e
    | .ok () =>
      let device : DeviceRecord :=
        { deviceId := chooseDeviceId request.deviceId deviceUuid, userId := userUuid
          identityKeyPublic := request.identityKeyPublic
          signedPrekeyPublic := request.signedPrekeyPublic
          signedPrekeySignature := request.signedPrekeySignature
          deviceLabel := request.deviceLabel, createdAt := now, lastSeenAt := now }
      match ← ask (.devices (.registerDevice device)) with
      | .error e => return .error e
      | .ok () =>
        match ← TokenManager.issueTokens cfg userUuid device.deviceId now fresh with
        | .error e => return .error e
        | .ok tokens =>
          return .ok { userId := userUuid, tokens, deviceStatus := "created", syncKeyVersion := 1 }

/-- The device part of a login: a new device is registered, a known one is only marked as seen. -/
def enterDevice (request : LoginRequest) (userId : UserId) (deviceId : DeviceId)
    (now : Timestamp) : ServerProg (Result String) := do
  match ← ask (.devices (.findByUserAndDevice userId deviceId)) with
  | none =>
    if request.identityKeyPublic = "" ∨ request.signedPrekeyPublic = "" ∨
        request.signedPrekeySignature = "" then
      return .error ⟨.invalidArgument, "identity_key_public, signed_prekey_public, and " ++
        "signed_prekey_signature are required for a new device"⟩
    let device : DeviceRecord :=
      { deviceId, userId
        identityKeyPublic := request.identityKeyPublic
        signedPrekeyPublic := request.signedPrekeyPublic
        signedPrekeySignature := request.signedPrekeySignature
        deviceLabel := request.deviceLabel, createdAt := now, lastSeenAt := now }
    match ← ask (.devices (.registerDevice device)) with
    | .error e => return .error e
    | .ok () => return .ok "created"
  | some _ =>
    match ← ask (.devices (.updateLastSeen userId deviceId now)) with
    | .error e => return .error e
    | .ok () => return .ok "existing"

def login (request : LoginRequest) (deviceUuid : String) (fresh : FreshTokens) :
    ServerProg (Result LoginResponse) := do
  let some user ← ask (.users (.findByUsername request.username))
    | return .error ⟨.unauthorized, "Invalid credentials"⟩
  if user.disabledAt.isSome then
    return .error ⟨.forbidden, "Account is disabled"⟩
  if !PasswordHasher.verify cfg request.passwordDerivedValue user.passwordSalt
      user.passwordVerifier then
    return .error ⟨.unauthorized, "Invalid credentials"⟩
  let now ← ask .now
  let deviceId := chooseDeviceId request.deviceId deviceUuid
  match ← enterDevice request user.userId deviceId now with
  | .error e => return .error e
  | .ok deviceStatus =>
    match ← TokenManager.issueTokens cfg user.userId deviceId now fresh with
    | .error e => return .error e
    | .ok tokens =>
      return .ok { userId := user.userId, tokens, deviceStatus
                   syncKeyVersion := user.syncKeyVersion }

def logout (sessionId : String) : ServerProg VoidResult := do
  let now ← ask .now
  TokenManager.revokeSession sessionId now

def logoutWithAccessToken (accessToken : String) : ServerProg VoidResult := do
  let now ← ask .now
  TokenManager.revokeByAccessToken cfg accessToken now

def refresh (request : RefreshRequest) (fresh : FreshTokens) : ServerProg (Result TokenPair) := do
  let now ← ask .now
  match ← TokenManager.refreshTokens cfg request.refreshToken request.deviceId now fresh with
  | .error e => return .error e
  | .ok result =>
    match ← ask (.devices (.updateLastSeen result.userId request.deviceId now)) with
    | .error e => return .error e
    | .ok () => return .ok result.tokens

def changePassword (userId : UserId) (request : ChangePasswordRequest) (salt : Option String) :
    ServerProg (Result ChangePasswordResponse) := do
  let some user ← ask (.users (.findById userId))
    | return .error ⟨.notFound, "User not found"⟩
  if request.wrappedSyncKey = "" ∨ request.syncWrapSalt = "" ∨ request.syncWrapParams = "" then
    return .error ⟨.invalidArgument,
      "wrapped_sync_key, sync_wrap_salt, and sync_wrap_params are required"⟩
  if !PasswordHasher.verify cfg request.currentPasswordDerivedValue user.passwordSalt
      user.passwordVerifier then
    return .error ⟨.unauthorized, "Invalid credentials"⟩
  match PasswordHasher.hash cfg salt request.newPasswordDerivedValue with
  | .error e => return .error e
  | .ok hashed =>
    match ← ask (.users (.updatePasswordCredentials userId hashed.salt hashed.verifier)) with
    | .error e => return .error e
    | .ok () =>
      let newVer := user.syncKeyVersion + 1
      match ← ask (.users (.setSyncKeyBundle userId ⟨newVer, request.wrappedSyncKey,
        request.syncWrapSalt, request.syncWrapParams⟩)) with
      | .error e => return .error e
      | .ok () => return .ok ⟨newVer⟩

end AuthService

end VoxServer
