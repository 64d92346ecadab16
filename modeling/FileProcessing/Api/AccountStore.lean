import FileProcessing.World

/-!
# The accounts: users, API keys and the calls on them

The tables `users` and `api_keys` with the statements `UserRepository` and `ApiKeyRepository` run on them, and the calls
`AuthService` and `ApiKeyService` await, each one atomic step. What the services take from `jsonwebtoken`, `bcryptjs` and
`node:crypto` is a parameter, `Crypto`.
-/

namespace FileProcessing

/-- The payload of a JSON Web Token; the times are in seconds. -/
structure JwtPayload where
  sub : Option Uuid
  iat : Nat
  exp : Nat
  deriving DecidableEq, Repr

/-- What the services take from elsewhere. `signAccess` and `signRefresh` are `jwt.sign` under the two secrets, a function of the
claims; `decodeRefresh` is the signature check of `jwt.verify` under the refresh secret; `compare` is `bcrypt.compare`, `sha256`
the hexadecimal digest. -/
structure Crypto where
  signAccess : JwtPayload → String
  signRefresh : JwtPayload → String
  decodeRefresh : String → Option JwtPayload
  compare : String → String → Bool
  sha256 : String → String
  /-- A token that was signed verifies, with its claims. -/
  decode_sign : ∀ payload, decodeRefresh (signRefresh payload) = some payload
  /-- Two texts with the same digest are the same text. -/
  sha256_injective : Function.Injective sha256
  /-- A digest is not the empty string. -/
  sha256_ne : ∀ text, sha256 text ≠ ""

/-- The settings of `AuthService` the model reads. -/
structure AuthServiceConfig where
  accessTtlSeconds : Nat
  refreshTtlSeconds : Nat
  deriving DecidableEq, Repr

namespace UserRepository

/-- `SELECT ... WHERE email LIMIT 1`. -/
def findByEmail (users : Table User.id) (email : String) : Option User :=
  (users.select (fun user => user.email = email)).head?

/-- `SELECT ... WHERE id LIMIT 1`. -/
def findById (users : Table User.id) (id : Uuid) : Option User := (users.select (fun user => user.id = id)).head?

/-- The row an insert makes of its values. -/
def newRow (now : Time) (id : Uuid) (email passwordHash : String) : User where
  id := id
  email := email
  passwordHash := passwordHash
  refreshTokenHash := none
  isGuest := false
  createdAt := now
  updatedAt := now

/-- `INSERT INTO users ... RETURNING`; `email varchar(255)` is unique. -/
def create (users : Table User.id) (now : Time) (id : Uuid) (email passwordHash : String) : Option (User × Table User.id) :=
  if varcharIn 255 email = some email ∧ ¬users.rows.any (fun user => user.email = email) then
    (users.insert (newRow now id email passwordHash)).map (fun users => (newRow now id email passwordHash, users))
  else none

/-- `UPDATE users SET refresh_token_hash, updated_at WHERE id`. -/
def setRefreshTokenHash (users : Table User.id) (now : Time) (userId : Uuid) (hash : Option String) : Table User.id :=
  users.update (fun user => user.id = userId) (fun user => { user with refreshTokenHash := hash, updatedAt := now })
    (fun _ => rfl)

/-- `UPDATE users SET password_hash, updated_at WHERE id`. -/
def updatePassword (users : Table User.id) (now : Time) (userId : Uuid) (passwordHash : String) : Table User.id :=
  users.update (fun user => user.id = userId) (fun user => { user with passwordHash := passwordHash, updatedAt := now })
    (fun _ => rfl)

end UserRepository

namespace ApiKeyRepository

/-- The rows of a user. -/
def keysOf (apiKeys : Table ApiKeyRow.id) (userId : Uuid) : List ApiKeyRow := apiKeys.select (fun row => row.userId = userId)

/-- `SELECT ... WHERE user_id`, which leaves the order open. -/
def findByUserId (order : List Uuid) (apiKeys : Table ApiKeyRow.id) (userId : Uuid) : List ApiKeyRow :=
  inOrder ApiKeyRow.id order (keysOf apiKeys userId)

/-- The number of rows `SELECT id ... WHERE user_id` returns. -/
def countByUserId (apiKeys : Table ApiKeyRow.id) (userId : Uuid) : Nat := (keysOf apiKeys userId).length

/-- The values fit `key_prefix varchar(10)` and `last_four char(4)`. -/
def fits (data : NewApiKey) : Bool := data.keyPrefix.length ≤ 10 && data.lastFour.length ≤ 4

/-- The row an insert makes of its values. -/
def newRow (now : Time) (id : Uuid) (data : NewApiKey) : ApiKeyRow where
  id := id
  userId := data.userId
  keyHash := data.keyHash
  keyPrefix := data.keyPrefix
  lastFour := data.lastFour
  createdAt := now

/-- `INSERT INTO api_keys ... RETURNING`; `user_id` must name a row of `users`. No constraint bounds the rows of a user. -/
def create (users : Table User.id) (apiKeys : Table ApiKeyRow.id) (now : Time) (id : Uuid) (data : NewApiKey) :
    Option (ApiKeyRow × Table ApiKeyRow.id) :=
  if fits data && users.rows.any (fun user => user.id = data.userId) then
    (apiKeys.insert (newRow now id data)).map (fun apiKeys => (newRow now id data, apiKeys))
  else none

/-- `WHERE id = keyId AND user_id = userId`. -/
def owned (userId keyId : Uuid) (row : ApiKeyRow) : Bool := row.id = keyId && row.userId = userId

/-- `DELETE FROM api_keys WHERE id AND user_id RETURNING`: whether a row was deleted. -/
def deleteById (apiKeys : Table ApiKeyRow.id) (id userId : Uuid) : Bool × Table ApiKeyRow.id :=
  (0 < (apiKeys.select (owned userId id)).length, apiKeys.delete (owned userId id))

end ApiKeyRepository

/-- What the two services share: their tables, the UUIDs generated so far, the user ids an access token was issued for, and the
clock. -/
structure AccountStore where
  users : Table User.id
  apiKeys : Table ApiKeyRow.id
  issued : List Uuid
  sessions : List Uuid
  now : Time

/-- The store before the first call. -/
def AccountStore.empty : AccountStore := ⟨Table.empty, Table.empty, [], [], 0⟩

/-- An awaited call of the two services, with the type of its reply. -/
inductive AccountCall : Type → Type where
  | findByEmail (email : String) : AccountCall (Option User)
  | findById (id : Uuid) : AccountCall (Option User)
  | createUser (email passwordHash : String) : AccountCall User
  | setRefreshTokenHash (userId : Uuid) (hash : Option String) : AccountCall Unit
  | updatePassword (userId : Uuid) (passwordHash : String) : AccountCall Unit
  | bcryptHash (password : String) : AccountCall String
  | bcryptCompare (password passwordHash : String) : AccountCall Bool
  | findByUserId (userId : Uuid) : AccountCall (List ApiKeyRow)
  | countByUserId (userId : Uuid) : AccountCall Nat
  | createKey (data : NewApiKey) : AccountCall ApiKeyRow
  | deleteById (id userId : Uuid) : AccountCall Bool

/-- What the environment supplies to a step: the UUID the database generates, the salted hash `bcrypt.hash` returns, the 24 bytes of
`randomBytes`, and the order in which the database comes to rows where the statement leaves it open. -/
structure AccountChoice where
  id : Uuid
  text : String
  random : BitVec 192
  order : List Uuid
  deriving DecidableEq, Repr

/-- Run a call: its reply and the store after it. PostgreSQL refuses a parameter with a NUL. An account is signed in from its insert
on: `register` signs its access token there. -/
def AccountCall.exec (crypto : Crypto) (ch : AccountChoice) (a : AccountStore) :
    {α : Type} → AccountCall α → Except Err α × AccountStore
  | _, .findByEmail email => (if nul ∈ email.toList then .error rejected else .ok (UserRepository.findByEmail a.users email), a)
  | _, .findById id => (.ok (UserRepository.findById a.users id), a)
  | _, .createUser email passwordHash =>
    if ch.id ∈ a.issued then (.error rejected, a)
    else match UserRepository.create a.users a.now ch.id email passwordHash with
      | none => (.error rejected, a)
      | some (user, users) =>
        (.ok user, { a with users := users, issued := ch.id :: a.issued, sessions := ch.id :: a.sessions })
  | _, .setRefreshTokenHash userId hash =>
    (.ok (), { a with users := UserRepository.setRefreshTokenHash a.users a.now userId hash })
  | _, .updatePassword userId passwordHash =>
    (.ok (), { a with users := UserRepository.updatePassword a.users a.now userId passwordHash })
  | _, .bcryptHash _ => (.ok ch.text, a)
  | _, .bcryptCompare password passwordHash => (.ok (crypto.compare password passwordHash), a)
  | _, .findByUserId userId => (.ok (ApiKeyRepository.findByUserId ch.order a.apiKeys userId), a)
  | _, .countByUserId userId => (.ok (ApiKeyRepository.countByUserId a.apiKeys userId), a)
  | _, .createKey data =>
    if ch.id ∈ a.issued then (.error rejected, a)
    else match ApiKeyRepository.create a.users a.apiKeys a.now ch.id data with
      | none => (.error rejected, a)
      | some (row, apiKeys) => (.ok row, { a with apiKeys := apiKeys, issued := ch.id :: a.issued })
  | _, .deleteById id userId =>
    let (deleted, apiKeys) := ApiKeyRepository.deleteById a.apiKeys id userId
    (.ok deleted, { a with apiKeys := apiKeys })

/-- What an async function of the two services does next: the call it awaits, and what it becomes when the call settles. -/
structure AccountAwait (T : Type) where
  {α : Type}
  call : AccountCall α
  resume : Except Err α → T

/-- Change what the function becomes. -/
def AccountAwait.map {T U : Type} (aw : AccountAwait T) (f : T → U) : AccountAwait U := ⟨aw.call, fun r => f (aw.resume r)⟩

end FileProcessing
