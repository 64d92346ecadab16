import FileProcessing.Lib.Unicode
import FileProcessing.Api.AuthService
import FileProcessing.Ws.Gateway

/-!
# The two kinds of token and their three verifiers

`jsonwebtoken` under any secret, the settings `EnvSchema` admits for it, the tokens `AuthService` signs, and the places where a token
is verified: the `authenticate` preHandler, the handshake of `/ws`, and `AuthService.refresh`.
-/

namespace FileProcessing

open AuthService

/-- The one role a token can name. -/
inductive TokenRole where
  | guest
  deriving DecidableEq, Repr

/-- The claims of a token: those of every token, and a role. -/
structure TokenPayload extends JwtPayload where
  role : Option TokenRole
  deriving DecidableEq, Repr

/-- `jsonwebtoken`: `sign` is a function of the secret and of the claims, `decode` the signature check of `verify`. -/
structure JsonWebToken where
  sign : String → TokenPayload → String
  decode : String → String → Option TokenPayload
  /-- The signature of a token holds under the secret it was signed with, and under no other. -/
  decode_sign : ∀ secret secret' payload, decode secret' (sign secret payload) = if secret' = secret then some payload else none

/-- `jwt.verify(token, secret)`: the claims of a token whose signature holds and that has not expired. -/
def JsonWebToken.verify (jwt : JsonWebToken) (secret : String) (now : Time) (token : String) : Option TokenPayload :=
  (jwt.decode secret token).bind (fun payload => if payload.exp ≤ clockTimestamp now then none else some payload)

/-- `config.jwt`, as `EnvSchema` admits it. -/
structure JwtConfig extends AuthServiceConfig where
  accessSecret : String
  refreshSecret : String
  accessSecret_min : 32 ≤ utf16Length accessSecret
  refreshSecret_min : 32 ≤ utf16Length refreshSecret
  accessTtlSeconds_pos : 0 < accessTtlSeconds
  refreshTtlSeconds_pos : 0 < refreshTtlSeconds

namespace JwtConfig

variable (config : JwtConfig) (jwt : JsonWebToken)

/-- `AuthService.signAccessToken(userId, role)`. -/
def signAccessToken (now : Time) (userId : Uuid) (role : Option TokenRole) : String :=
  jwt.sign config.accessSecret ⟨claims config.accessTtlSeconds now userId, role⟩

/-- `AuthService.signRefreshToken(userId)`. -/
def signRefreshToken (now : Time) (userId : Uuid) : String :=
  jwt.sign config.refreshSecret ⟨claims config.refreshTtlSeconds now userId, none⟩

/-- What `AuthService` takes from `jsonwebtoken`, with the rest of it from elsewhere. -/
def crypto (rest : Crypto) : Crypto where
  signAccess payload := jwt.sign config.accessSecret ⟨payload, none⟩
  signRefresh payload := jwt.sign config.refreshSecret ⟨payload, none⟩
  decodeRefresh token := (jwt.decode config.refreshSecret token).map TokenPayload.toJwtPayload
  compare := rest.compare
  sha256 := rest.sha256
  decode_sign payload := by rw [jwt.decode_sign, if_pos rfl, Option.map_some]
  sha256_injective := rest.sha256_injective
  sha256_ne := rest.sha256_ne

/-- Who a request is made by. -/
structure Requester where
  userId : Uuid
  role : Option TokenRole
  deriving DecidableEq, Repr

/-- The `authenticate` preHandler on the `Authorization` header of a request. -/
def authenticate (now : Time) (authorization : Option String) : Except Err Requester :=
  match authorization with
  | none => .error (unauthorized "MISSING_TOKEN" "Authorization token is required")
  | some header =>
    if header.toList.take 7 = "Bearer ".toList then
      match jwt.verify config.accessSecret now (String.ofList (header.toList.drop 7)) with
      | none => .error (unauthorized "INVALID_TOKEN" "Token is invalid or expired")
      | some payload =>
        match payload.sub with
        | none => .error (unauthorized "INVALID_TOKEN" "Token payload is malformed")
        | some userId => .ok ⟨userId, payload.role⟩
    else .error (unauthorized "MISSING_TOKEN" "Authorization token is required")

/-- The handshake of `/ws` on the `token` of the query: the user the socket is added under, `none` when it is closed with 4001. -/
def wsHandshake (now : Time) (token : Option String) : Option String :=
  handshake token ((token.bind (jwt.verify config.accessSecret now)).bind (fun payload => payload.sub.map Uuid.text))

end JwtConfig

end FileProcessing
