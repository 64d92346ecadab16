import FileProcessing.Api.Reads
import FileProcessing.Api.Schemas

/-!
# What the routes answer

The headers of a download, and the error handler on every value that can be thrown while a request is served: what a service
throws, what Fastify throws on a client's mistake, what the rate limiter throws, and anything else.
-/

namespace FileProcessing

/-- The name of a download, as the route writes it. -/
def contentDisposition (file : FileRow) : String := "attachment; filename=\"" ++ file.originalName ++ "\""

/-- The headers `GET /files/:id/download` sets, of the file `getDownloadStream` returns. -/
def downloadHeaders (file : FileRow) : List (String × String) :=
  [("Content-Type", file.mimeType), ("Content-Disposition", contentDisposition file), ("Content-Length", toString file.size)]

/-- What the error handler can read of a thrown value: `statusCode` and `message` where it has them, and whether it has a
`validation`. -/
structure ErrorFields where
  statusCode : Option Nat
  message : Option String
  validation : Bool
  deriving DecidableEq, Repr

/-- A value thrown while a request is served. -/
inductive Thrown where
  -- `null` or `undefined`
  | nullish
  | appError (statusCode : Nat) (code message : String)
  -- an error Fastify makes: of the body parser, of the validation of a schema
  | fastify (fields : ErrorFields)
  -- the plain object `errorResponseBuilder` returns, which the rate limiter throws
  | rateLimited (code message : String)
  | other (fields : ErrorFields)
  deriving DecidableEq, Repr

/-- `tooManyRequests`. -/
def tooManyRequests (code message : String) : Err := .app 429 code message

/-- `errorResponseBuilder`: the code and the message of the `AppError` it makes, in an object without a status. `after` is the
text of the time that remains. -/
def errorResponseBuilder (after : String) : Thrown :=
  match tooManyRequests "TOO_MANY_REQUESTS" ("Rate limit exceeded, retry in " ++ after) with
  | .app _ code message => .rateLimited code message
  | .error message => .other ⟨none, some message, false⟩

/-- What a service throws, as a value. -/
def Err.thrown : Err → Thrown
  | .app statusCode code message => .appError statusCode code message
  | .error message => .other ⟨none, some message, false⟩

/-- The reply the error handler sends: a status and `{ error: { code, message } }`, where a message that is `undefined` is left
out; and whether it logs the value. -/
structure HandledError where
  statusCode : Nat
  code : String
  message : Option String
  logged : Bool
  deriving DecidableEq, Repr

/-- The reply to a value the handler knows nothing of. -/
def internalError : HandledError := ⟨500, "INTERNAL_ERROR", some "Internal server error", true⟩

/-- The rest of the error handler, on the fields of a value that is no `AppError`. -/
def handleFields (fields : ErrorFields) : HandledError :=
  if fields.validation then ⟨422, "VALIDATION_ERROR", fields.message, false⟩ else internalError

/-- The function `registerErrorHandler` sets. `none` when it throws itself, which it does in reading a field of `null` or
`undefined`; the reply is then Fastify's own. -/
def handleError : Thrown → Option HandledError
  | .nullish => none
  | .appError statusCode code message => some ⟨statusCode, code, some message, false⟩
  | .fastify fields => some (handleFields fields)
  -- the object has `error` for its only field
  | .rateLimited _ _ => some (handleFields ⟨none, none, false⟩)
  | .other fields => some (handleFields fields)

/-- What a service throws is answered as `errorHandler` says. -/
theorem handleError_thrown (e : Err) :
    (handleError e.thrown).map (fun r => (r.statusCode, r.code, r.message)) =
      some ((errorHandler e).statusCode, (errorHandler e).code, some (errorHandler e).message) := by
  cases e <;> rfl

end FileProcessing
