import FileProcessing.Api.AccountStore

/-!
# `AuthService`: registration, sign-in, refresh and sign-out

The suspension points of each method, as in `Api/FileService.lean`. What runs between two calls reads the clock: `now` is the time
at which the reply before it arrives.
-/

namespace FileProcessing

namespace AuthService

/-- The public shape of a user. -/
structure PublicUser where
  id : Uuid
  email : String
  createdAt : Time
  updatedAt : Time
  deriving DecidableEq, Repr

def toPublicUser (user : User) : PublicUser where
  id := user.id
  email := user.email
  createdAt := user.createdAt
  updatedAt := user.updatedAt

def hashToken (crypto : Crypto) (token : String) : String := crypto.sha256 token

/-- The whole seconds of a time, as `jsonwebtoken` reads the clock. -/
def clockTimestamp (now : Time) : Nat := (now / 1000).toNat

/-- The claims `jwt.sign` adds to the subject. -/
def claims (ttlSeconds : Nat) (now : Time) (userId : Uuid) : JwtPayload where
  sub := some userId
  iat := clockTimestamp now
  exp := clockTimestamp now + ttlSeconds

def signAccessToken (crypto : Crypto) (cfg : AuthServiceConfig) (now : Time) (userId : Uuid) : String :=
  crypto.signAccess (claims cfg.accessTtlSeconds now userId)

def signRefreshToken (crypto : Crypto) (cfg : AuthServiceConfig) (now : Time) (userId : Uuid) : String :=
  crypto.signRefresh (claims cfg.refreshTtlSeconds now userId)

/-- `jwt.verify(token, refreshSecret)`: the claims of a token whose signature holds and that has not expired. -/
def verifyRefreshToken (crypto : Crypto) (now : Time) (token : String) : Option JwtPayload :=
  (crypto.decodeRefresh token).bind (fun payload => if payload.exp ≤ clockTimestamp now then none else some payload)

/-- The result of `register` and of `login`. -/
structure Session where
  user : PublicUser
  accessToken : String
  refreshToken : String
  deriving DecidableEq, Repr

/-- The session of a user: its two tokens, signed now. -/
def newSession (crypto : Crypto) (cfg : AuthServiceConfig) (now : Time) (user : User) : Session where
  user := toPublicUser user
  accessToken := signAccessToken crypto cfg now user.id
  refreshToken := signRefreshToken crypto cfg now user.id

/-- The suspension points of `register`. -/
inductive Register where
  | findByEmail
  | hash
  | create (passwordHash : String)
  | setRefreshTokenHash (session : Session)
  | returned (session : Session)
  | threw (err : Err)
  deriving DecidableEq, Repr

/-- `AuthService.register`. -/
def register (crypto : Crypto) (cfg : AuthServiceConfig) (now : Time) (email password : String) :
    Register → Option (AccountAwait Register)
  | .findByEmail => some
    { call := .findByEmail email
      resume := fun
        | .error e => .threw e
        | .ok (some _) => .threw (conflict "EMAIL_TAKEN" "An account with this email address already exists")
        | .ok none => .hash }
  | .hash => some
    { call := .bcryptHash password
      resume := fun
        | .error e => .threw e
        | .ok passwordHash => .create passwordHash }
  | .create passwordHash => some
    { call := .createUser email passwordHash
      resume := fun
        | .error e => .threw e
        | .ok user => .setRefreshTokenHash (newSession crypto cfg now user) }
  | .setRefreshTokenHash session => some
    { call := .setRefreshTokenHash session.user.id (some (hashToken crypto session.refreshToken))
      resume := fun
        | .error e => .threw e
        | .ok () => .returned session }
  | .returned _ => none
  | .threw _ => none

/-- The suspension points of `login`. -/
inductive Login where
  | findByEmail
  | compare (user : User)
  | setRefreshTokenHash (session : Session)
  | returned (session : Session)
  | threw (err : Err)
  deriving DecidableEq, Repr

/-- `AuthService.login`. -/
def login (crypto : Crypto) (cfg : AuthServiceConfig) (now : Time) (email password : String) :
    Login → Option (AccountAwait Login)
  | .findByEmail => some
    { call := .findByEmail email
      resume := fun
        | .error e => .threw e
        -- the same message for a missing user and for a wrong password
        | .ok none => .threw (unauthorized "INVALID_CREDENTIALS" "Invalid email or password")
        | .ok (some user) => .compare user }
  | .compare user => some
    { call := .bcryptCompare password user.passwordHash
      resume := fun
        | .error e => .threw e
        | .ok valid =>
          if valid then .setRefreshTokenHash (newSession crypto cfg now user)
          else .threw (unauthorized "INVALID_CREDENTIALS" "Invalid email or password") }
  | .setRefreshTokenHash session => some
    { call := .setRefreshTokenHash session.user.id (some (hashToken crypto session.refreshToken))
      resume := fun
        | .error e => .threw e
        | .ok () => .returned session }
  | .returned _ => none
  | .threw _ => none

/-- The suspension points of `refresh`. -/
inductive Refresh where
  | findById (userId : Uuid)
  | setRefreshTokenHash (userId : Uuid)
  | returned (accessToken : String)
  | threw (err : Err)
  deriving DecidableEq, Repr

/-- `refresh` up to its first `await`. -/
def refresh.start (crypto : Crypto) (now : Time) (token : String) : Refresh :=
  match verifyRefreshToken crypto now token with
  | none => .threw (unauthorized "INVALID_REFRESH_TOKEN" "Refresh token is invalid or expired")
  | some payload =>
    match payload.sub with
    | none => .threw (unauthorized "INVALID_REFRESH_TOKEN" "Refresh token payload is malformed")
    | some userId => .findById userId

/-- `AuthService.refresh`. -/
def refresh (crypto : Crypto) (cfg : AuthServiceConfig) (now : Time) (token : String) : Refresh → Option (AccountAwait Refresh)
  | .findById userId => some
    { call := .findById userId
      resume := fun
        | .error e => .threw e
        | .ok found =>
          match found.bind (fun user => user.refreshTokenHash) with
          | none => .threw (unauthorized "INVALID_REFRESH_TOKEN" "Session not found — please log in again")
          | some hash =>
            -- the empty string is falsy
            if hash = "" then .threw (unauthorized "INVALID_REFRESH_TOKEN" "Session not found — please log in again")
            else if hash ≠ hashToken crypto token then .setRefreshTokenHash userId
            else .returned (signAccessToken crypto cfg now userId) }
  | .setRefreshTokenHash userId => some
    { call := .setRefreshTokenHash userId none
      resume := fun
        | .error e => .threw e
        | .ok () => .threw (unauthorized "INVALID_REFRESH_TOKEN" "Refresh token has already been used") }
  | .returned _ => none
  | .threw _ => none

/-- The suspension points of `logout`. -/
inductive Logout where
  | setRefreshTokenHash
  | returned
  | threw (err : Err)
  deriving DecidableEq, Repr

/-- `AuthService.logout`. -/
def logout (userId : Uuid) : Logout → Option (AccountAwait Logout)
  | .setRefreshTokenHash => some
    { call := .setRefreshTokenHash userId none
      resume := fun
        | .error e => .threw e
        | .ok () => .returned }
  | .returned => none
  | .threw _ => none

/-- The suspension points of `me`. -/
inductive Me where
  | findById
  | returned (user : PublicUser)
  | threw (err : Err)
  deriving DecidableEq, Repr

/-- `AuthService.me`. -/
def me (userId : Uuid) : Me → Option (AccountAwait Me)
  | .findById => some
    { call := .findById userId
      resume := fun
        | .error e => .threw e
        | .ok none => .threw (notFound "USER_NOT_FOUND" "User not found")
        | .ok (some user) => .returned (toPublicUser user) }
  | .returned _ => none
  | .threw _ => none

/-- The suspension points of `changePassword`. -/
inductive ChangePassword where
  | findById
  | compare (user : User)
  | hash
  | updatePassword (passwordHash : String)
  | returned
  | threw (err : Err)
  deriving DecidableEq, Repr

/-- `AuthService.changePassword`. -/
def changePassword (userId : Uuid) (currentPassword newPassword : String) :
    ChangePassword → Option (AccountAwait ChangePassword)
  | .findById => some
    { call := .findById userId
      resume := fun
        | .error e => .threw e
        | .ok none => .threw (notFound "USER_NOT_FOUND" "User not found")
        | .ok (some user) => .compare user }
  | .compare user => some
    { call := .bcryptCompare currentPassword user.passwordHash
      resume := fun
        | .error e => .threw e
        | .ok valid =>
          if valid then .hash
          else .threw (badRequest "INVALID_CURRENT_PASSWORD" "Current password is incorrect") }
  | .hash => some
    { call := .bcryptHash newPassword
      resume := fun
        | .error e => .threw e
        | .ok newHash => .updatePassword newHash }
  | .updatePassword newHash => some
    { call := .updatePassword userId newHash
      resume := fun
        | .error e => .threw e
        | .ok () => .returned }
  | .returned => none
  | .threw _ => none

end AuthService

end FileProcessing
