import FileProcessing.Lib.Base64
import FileProcessing.Lib.JsonText
import FileProcessing.Types

/-!
# The token of a guest

The text of the token `AuthService.createGuestSession` issues, as `jsonwebtoken` makes it, and how `useGuestJob` reads it back: with
`atob` and `JSON.parse`, and as expired where anything goes wrong.
-/

namespace FileProcessing

open JsonText

/-! ## The token -/

/-- The base64url encoding of bytes. -/
def base64url (bytes : List UInt8) : List Char := Base64.encodeUrl (bytes.map UInt8.toNat)

/-- The base64url encoding of a text, in UTF-8. -/
def base64urlText (text : List Char) : List Char := base64url (text.flatMap String.utf8EncodeChar)

/-- The claims `signAccessToken(userId, 'guest')` signs, with the numbers as they are written. -/
def guestClaims (sub : Uuid) {iat exp : Nat} (iatText : Decimal iat) (expText : Decimal exp) : List Member :=
  [⟨"sub".toList, quoted sub.chars, .string sub.text⟩,
    ⟨"role".toList, quoted "guest".toList, .string "guest"⟩,
    ⟨"iat".toList, iatText.text, .number (.round iat)⟩,
    ⟨"exp".toList, expText.text, .number (.round exp)⟩]

/-- The header `jwt.sign` writes. -/
def jwtHeader : List Member :=
  [⟨"alg".toList, quoted "HS256".toList, .string "HS256"⟩, ⟨"typ".toList, quoted "JWT".toList, .string "JWT"⟩]

/-- `jwt.sign` with HMAC under a secret: header, claims and signature, each base64url-encoded, with dots between them. -/
def jwtSign (hmac : List Char → List UInt8) (claims : List Member) : List Char :=
  let signed := base64urlText (objectText jwtHeader) ++ '.' :: base64urlText (objectText claims)
  signed ++ '.' :: base64url (hmac signed)

/-- The access token of `createGuestSession`. -/
def createGuestSession (hmac : List Char → List UInt8) (sub : Uuid) {iat exp : Nat} (iatText : Decimal iat) (expText : Decimal exp) :
    String :=
  String.ofList (jwtSign hmac (guestClaims sub iatText expText))

/-! ## Reading it -/

/-- What `Date.now()` returns. -/
structure TimeValue where
  ms : Int
  range : ms.natAbs ≤ 8640000000000000

/-- `token.split('.')[1]`, as `atob` takes it: `undefined` as a text. -/
def payloadSegment (token : String) : List Char := (token.toList.splitOn '.')[1]?.getD "undefined".toList

/-- A value as an operand of `*`; `none` is `NaN`, and `coerce` is what becomes of a string, an array or an object. -/
def toNumber (coerce : Json → Option JsNumber) : JsValue → Option JsNumber
  | .undefined => none
  | .json .null => some (.finite 0)
  | .json (.bool b) => some (.finite (if b then 1 else 0))
  | .json (.number n) => some n
  | .json value => coerce value

/-- `payload.exp * 1000 < Date.now() + 60_000`, where a comparison with `NaN` is false. -/
def expiresSoon (coerce : Json → Option JsNumber) (now : TimeValue) (payload : Json) : Bool :=
  match (toNumber coerce (payload.get "exp")).bind (·.mul (.finite 1000)), JsNumber.add (.finite now.ms) (.finite 60000) with
  | some expires, some limit => expires.lt limit
  | _, _ => false

/-- `isTokenExpiredOrMissing`. -/
def isTokenExpiredOrMissing (coerce : Json → Option JsNumber) (now : TimeValue) : Option String → Bool
  | none => true
  | some token =>
    if token = "" then true
    else
      match (Base64.atob (payloadSegment token)).bind parse with
      -- whatever `atob`, `JSON.parse` or reading a property of `null` throws is caught
      | none | some .null => true
      | some payload => expiresSoon coerce now payload

end FileProcessing
