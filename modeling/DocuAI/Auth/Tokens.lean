import DocuAI.AppException
import DocuAI.Config

/-!
# Refresh tokens

Opaque refresh tokens, the rows that stand for them, and what the calls of authentication take and
return.  The keyed hash of a token and the verification of a password are parameters.
-/

namespace DocuAI

open JsString

/-- The cryptographic primitives: the keyed hash of a refresh token, and the verification of a
password against a stored hash. -/
structure Crypto where
  hashRefreshToken : JsString → JsString
  verify : JsString → JsString → Bool
  /-- The hash a password is verified against when the email is unknown. -/
  decoyPasswordHash : JsString

/-- The characters `[A-Za-z0-9_-]`. -/
def isUrlSafe (u : UInt16) : Bool :=
  (0x41 ≤ u && u ≤ 0x5A) || (0x61 ≤ u && u ≤ 0x7A) || (0x30 ≤ u && u ≤ 0x39) || u == 0x5F
    || u == 0x2D

/-- The shape of what `generateRefreshToken` yields: 64 URL-safe characters. -/
def isGeneratedRefreshToken (token : JsString) : Bool :=
  token.length = 64 && token.all isUrlSafe

/-- Loose shape check used to reject junk before hitting the database. -/
def looksLikeRefreshToken (token : JsString) : Bool :=
  43 ≤ token.length && token.length ≤ 128 && token.all isUrlSafe

/-- Canonical email form used for uniqueness and lookups. -/
def normalizeEmail (unicode : Unicode) (email : JsString) : JsString :=
  unicode.toLowerCase (trim email)

/-! ### Errors -/

def invalidCredentials : AppException :=
  ⟨.UNAUTHORIZED, .AUTH_INVALID_CREDENTIALS, js "Invalid email or password"⟩

def emailAlreadyExists : AppException :=
  ⟨.CONFLICT, .AUTH_EMAIL_ALREADY_EXISTS, js "An account with this email already exists"⟩

def invalidRefreshToken : AppException :=
  ⟨.UNAUTHORIZED, .AUTH_REFRESH_TOKEN_INVALID, js "Invalid refresh token"⟩

def refreshTokenExpired : AppException :=
  ⟨.UNAUTHORIZED, .AUTH_REFRESH_TOKEN_EXPIRED, js "Refresh token has expired"⟩

def refreshTokenReused : AppException :=
  ⟨.UNAUTHORIZED, .AUTH_REFRESH_TOKEN_REUSED, js "Refresh token is no longer valid"⟩

/-- Exception for an account that is not ACTIVE. -/
def accountStatusException : UserStatus → AppException
  | .SUSPENDED => ⟨.FORBIDDEN, .AUTH_ACCOUNT_SUSPENDED, js "This account has been suspended"⟩
  | _ => ⟨.FORBIDDEN, .AUTH_ACCOUNT_DELETED, js "This account is no longer available"⟩

/-! ### Requests and responses -/

/-- Session metadata of a request. -/
structure SessionContext where
  ipAddress : Option JsString
  userAgent : Option JsString
  deviceName : Option JsString
  deriving DecidableEq

structure RegisterDto where
  email : JsString
  password : JsString
  name : Option JsString
  deriving DecidableEq

structure LoginDto where
  email : JsString
  password : JsString
  deriving DecidableEq

/-- A token pair.  The access token is given by its subject. -/
structure TokenPairDto where
  sub : ℕ
  refreshToken : JsString
  expiresIn : ℕ
  deriving DecidableEq

/-- The only user shape that ever leaves the API. -/
structure PublicUserDto where
  id : ℕ
  email : JsString
  name : Option JsString
  avatarUrl : Option JsString
  status : UserStatus
  emailVerified : Bool
  createdAt : ℕ
  updatedAt : ℕ
  deriving DecidableEq

def toPublicUser (user : User) : PublicUserDto where
  id := user.id
  email := user.email
  name := user.name
  avatarUrl := user.avatarUrl
  status := user.status
  emailVerified := user.emailVerified
  createdAt := user.createdAt
  updatedAt := user.updatedAt

/-! ### Rows -/

def USER_AGENT_MAX_LENGTH : ℕ := 255

def IP_MAX_LENGTH : ℕ := 45

/-- Metadata cut to the maximal length, nothing when it is empty. -/
def truncateMetadata (value : Option JsString) (maxLength : ℕ) : Option JsString :=
  (value.filter (· ≠ [])).map fun value => truncate value maxLength

/-- The row `issueRefreshToken` inserts. -/
def issuedRefreshToken (config : AuthConfig) (crypto : Crypto) (ctx : SessionContext)
    (id userId : ℕ) (token : JsString) (now : ℕ) : RefreshToken where
  id := id
  userId := userId
  tokenHash := crypto.hashRefreshToken token
  expiresAt := now + config.refreshTtlSeconds * 1000
  revokedAt := none
  deviceName := ctx.deviceName
  userAgent := truncateMetadata ctx.userAgent USER_AGENT_MAX_LENGTH
  ipAddress := truncateMetadata ctx.ipAddress IP_MAX_LENGTH
  createdAt := now
  updatedAt := now

/-- The row `create` inserts for a user. -/
def createdUser (unicode : Unicode) (dto : RegisterDto) (id : ℕ) (passwordHash : JsString)
    (now : ℕ) : User where
  id := id
  email := normalizeEmail unicode dto.email
  passwordHash := passwordHash
  name := dto.name
  avatarUrl := none
  status := .ACTIVE
  emailVerified := false
  createdAt := now
  updatedAt := now

/-- The update that revokes the selected tokens, as far as they are not revoked. -/
def revoke (selects : RefreshToken → Bool) (revokedAt : ℕ) : Update RefreshToken.id where
  guard r := selects r && r.revokedAt.isNone
  data r := { r with revokedAt := some revokedAt, updatedAt := revokedAt }

/-- `where: { id, revokedAt: null }`. -/
def revokeOne (id revokedAt : ℕ) : Update RefreshToken.id :=
  revoke (fun r => r.id = id) revokedAt

/-- `where: { userId, revokedAt: null }`, over the rows the statement sees. -/
def revokeAll (visible : List ℕ) (userId revokedAt : ℕ) : Update RefreshToken.id :=
  revoke (fun r => r.userId = userId && r.id ∈ visible) revokedAt

/-- The new version of a row that a transaction has updated, as its commit publishes it. -/
def publishRevoked (id revokedAt : ℕ) : Update RefreshToken.id where
  guard r := r.id = id
  data r := { r with revokedAt := some revokedAt, updatedAt := revokedAt }

end DocuAI
