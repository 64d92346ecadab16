import FileProcessing.Api.AccountStore

/-!
# `ApiKeyService`: listing, creating and revoking API keys

The suspension points of each method, as in `Api/FileService.lean`.
-/

namespace FileProcessing

namespace ApiKeyService

def MAX_KEYS_PER_USER : Nat := 5
def KEY_PREFIX : String := "sk-"

/-- `generateRawKey`, from the bytes `randomBytes(24)` returns. -/
def generateRawKey (random : BitVec 192) : String := KEY_PREFIX ++ String.ofList (Hex.digits 48 random.toNat)

/-- `rawKey.slice(-4)`. -/
def lastFour (rawKey : String) : String := String.ofList (rawKey.toList.drop (rawKey.toList.length - 4))

/-- A key as the API shows it. -/
structure ApiKey where
  id : Uuid
  userId : Uuid
  keyPrefix : String
  lastFour : String
  createdAt : Time
  deriving DecidableEq, Repr

def toApiKey (row : ApiKeyRow) : ApiKey where
  id := row.id
  userId := row.userId
  keyPrefix := row.keyPrefix
  lastFour := row.lastFour
  createdAt := row.createdAt

/-- The suspension points of `listKeys`. -/
inductive ListKeys where
  | findByUserId
  | returned (keys : List ApiKey)
  | threw (err : Err)
  deriving DecidableEq, Repr

/-- `ApiKeyService.listKeys`. -/
def listKeys (userId : Uuid) : ListKeys → Option (AccountAwait ListKeys)
  | .findByUserId => some
    { call := .findByUserId userId
      resume := fun
        | .error e => .threw e
        | .ok rows => .returned (rows.map toApiKey) }
  | .returned _ => none
  | .threw _ => none

/-- The suspension points of `createKey`. -/
inductive CreateKey where
  | countByUserId
  | create (rawKey : String)
  | returned (key : ApiKey) (fullKey : String)
  | threw (err : Err)
  deriving DecidableEq, Repr

/-- `ApiKeyService.createKey`; `random` is what `randomBytes` returns once the rows are counted. -/
def createKey (crypto : Crypto) (random : BitVec 192) (userId : Uuid) : CreateKey → Option (AccountAwait CreateKey)
  | .countByUserId => some
    { call := .countByUserId userId
      resume := fun
        | .error e => .threw e
        | .ok count =>
          if MAX_KEYS_PER_USER ≤ count then
            .threw (conflict "API_KEY_LIMIT_REACHED"
              ("Maximum of " ++ toString MAX_KEYS_PER_USER ++ " API keys allowed per user"))
          else .create (generateRawKey random) }
  | .create rawKey => some
    { call := .createKey
        { userId := userId, keyHash := crypto.sha256 rawKey, keyPrefix := KEY_PREFIX, lastFour := lastFour rawKey }
      resume := fun
        | .error e => .threw e
        | .ok row => .returned (toApiKey row) rawKey }
  | .returned _ _ => none
  | .threw _ => none

/-- The suspension points of `revokeKey`. -/
inductive RevokeKey where
  | deleteById
  | returned
  | threw (err : Err)
  deriving DecidableEq, Repr

/-- `ApiKeyService.revokeKey`. -/
def revokeKey (userId keyId : Uuid) : RevokeKey → Option (AccountAwait RevokeKey)
  | .deleteById => some
    { call := .deleteById keyId userId
      resume := fun
        | .error e => .threw e
        | .ok deleted => if deleted then .returned else .threw (notFound "API_KEY_NOT_FOUND" "API key not found") }
  | .returned => none
  | .threw _ => none

end ApiKeyService

end FileProcessing
