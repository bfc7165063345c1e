import VoxServer.Server.Call

/-! # The token manager

Issues access and refresh tokens, each pair with one session row that holds only
the hashes. Refreshing revokes the old session before it issues a new pair.
-/

namespace VoxServer

open Interleaving

structure TokenPair where
  accessToken : String
  refreshToken : String
  deriving DecidableEq, Repr

structure RefreshResult where
  tokens : TokenPair
  userId : UserId
  deriving DecidableEq, Repr

structure FreshTokens where
  accessToken : String
  refreshToken : String
  sessionId : String
  deriving DecidableEq, Repr

namespace TokenManager

variable (cfg : ServerConfig)

def hashToken (token : String) : String := cfg.hmacSha256Hex cfg.sessionTokenPepper token

/-- The session row of an issuance. The sums are those of signed numbers with 64 bits. -/
def newSession (userId : UserId) (deviceId : DeviceId) (now : Timestamp) (fresh : FreshTokens) :
    SessionRecord :=
  { sessionId := fresh.sessionId
    userId, deviceId
    accessTokenHash := hashToken cfg fresh.accessToken
    refreshTokenHash := hashToken cfg fresh.refreshToken
    accessExpiresAt := toInt64 (now + cfg.accessTokenLifetimeSeconds)
    refreshExpiresAt := toInt64 (now + cfg.refreshTokenLifetimeSeconds)
    createdAt := now }

def issueTokens (userId : UserId) (deviceId : DeviceId) (now : Timestamp) (fresh : FreshTokens) :
    ServerProg (Result TokenPair) := do
  match ← ask (.sessions (.createSession (newSession cfg userId deviceId now fresh))) with
  | .error e => return .error e
  | .ok () => return .ok ⟨fresh.accessToken, fresh.refreshToken⟩

def validateAccessToken (accessToken : String) (now : Timestamp) :
    ServerProg (Result SessionRecord) := do
  let some session ← ask (.sessions (.findByAccessToken (hashToken cfg accessToken)))
    | return .error ⟨.unauthorized, "Invalid access token"⟩
  if session.accessExpiresAt ≤ now then
    return .error ⟨.expired, "Access token expired"⟩
  return .ok session

def refreshTokens (refreshToken : String) (deviceId : DeviceId) (now : Timestamp)
    (fresh : FreshTokens) : ServerProg (Result RefreshResult) := do
  let some session ← ask (.sessions (.findByRefreshToken (hashToken cfg refreshToken)))
    | return .error ⟨.unauthorized, "Invalid refresh token"⟩
  if session.refreshExpiresAt ≤ now then
    return .error ⟨.expired, "Refresh token expired"⟩
  if session.deviceId ≠ deviceId then
    return .error ⟨.forbidden, "Device mismatch on refresh"⟩
  match ← ask (.sessions (.revokeSession session.sessionId now)) with
  | .error e => return .error e
  | .ok () =>
    match ← issueTokens cfg session.userId deviceId now fresh with
    | .error e => return .error e
    | .ok pair => return .ok ⟨pair, session.userId⟩

def revokeSession (sessionId : String) (now : Timestamp) : ServerProg VoidResult :=
  ask (.sessions (.revokeSession sessionId now))

def revokeByAccessToken (accessToken : String) (now : Timestamp) : ServerProg VoidResult := do
  match ← validateAccessToken cfg accessToken now with
  | .error e => return .error e
  | .ok session => revokeSession session.sessionId now

def revokeAllForUser (userId : UserId) (now : Timestamp) : ServerProg VoidResult :=
  ask (.sessions (.revokeAllForUser userId now))

def revokeAllForDevice (userId : UserId) (deviceId : DeviceId) (now : Timestamp) :
    ServerProg VoidResult :=
  ask (.sessions (.revokeAllForDevice userId deviceId now))

end TokenManager

end VoxServer
