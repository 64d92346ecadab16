import FileProcessing.Api.Replies
import FileProcessing.Lib.HttpField
import FileProcessing.Api.Tokens
import FileProcessing.Tenants

/-!
# The routes

What a route admits, the preHandlers before its handler, the call of a service its handler makes and the reply it makes of the
result. Fastify checks the schema first, then runs the preHandlers, then the handler; `ajv` has coerced and defaulted what it accepts.
-/

namespace FileProcessing

open AuthService ApiKeyService FileService

/-! ## What the schemas accept -/

/-- A body `registerBodySchema` accepts. No address of the format `email` has a NUL. -/
structure RegisterBody where
  email : String
  password : String
  email_format : nul ∉ email.toList
  email_maxLength : email.length ≤ 255
  password_minLength : 8 ≤ password.length
  password_maxLength : password.length ≤ 128

/-- A body `loginBodySchema` accepts. -/
structure LoginBody where
  email : String
  password : String
  email_minLength : 1 ≤ email.length
  password_minLength : 1 ≤ password.length

/-- A body `changePasswordBodySchema` accepts. -/
structure ChangePasswordBody where
  currentPassword : String
  newPassword : String
  currentPassword_minLength : 1 ≤ currentPassword.length
  newPassword_minLength : 8 ≤ newPassword.length
  newPassword_maxLength : newPassword.length ≤ 128

/-- A query of `GET /files`. -/
structure ListFilesQuerystring extends ListFilesQuery where
  page : Nat := 1
  page_minimum : 1 ≤ page

/-- A query of `GET /jobs`. -/
structure ListJobsQuerystring extends ListJobsQuery where
  page : Nat := 1
  page_minimum : 1 ≤ page

/-- A route without a preHandler, with the body its schema has accepted. -/
inductive PublicRoute where
  | register (body : RegisterBody)
  | login (body : LoginBody)
  | refresh
  | guest

/-- A route behind `authenticate`, with what its schema has accepted. -/
inductive UserRoute where
  | logout
  | me
  | changePassword (body : ChangePasswordBody)
  | listKeys
  | createKey
  | revokeKey (id : Uuid)
  | createUploadUrl (body : CreateUploadUrlBody)
  | confirmUpload (id : Uuid)
  | listFiles (query : ListFilesQuerystring)
  | findFile (id : Uuid)
  | deleteFile (id : Uuid)
  | downloadFile (id : Uuid)
  | createJob (body : CreateJobBody)
  | listJobs (query : ListJobsQuerystring)
  | findJob (id : Uuid)
  | cancelJob (id : Uuid)

/-- What a request is for; `rejected` is one the schema of its route refuses, with the message of the error. -/
inductive Target where
  | rejected (message : String)
  | anyone (route : PublicRoute)
  | user (route : UserRoute)

/-- A request: its target, its `Authorization` header and its cookie `refreshToken`. -/
structure HttpRequest where
  target : Target
  authorization : Option String
  refreshToken : Option String

/-! ## What the handlers call -/

/-- A call of a service. -/
inductive ServiceCall where
  | account (r : AccountRequest)
  | platform (r : Request)
  | read (r : ReadRequest)
  deriving DecidableEq, Repr

/-- The user a call of a service is made for. -/
def ServiceCall.userId? : ServiceCall → Option Uuid
  | .account r => r.userId?
  | .platform r => some r.userId
  | .read r => some r.userId

/-- The preHandlers of the route end with `requireRegisteredUser`. -/
def UserRoute.registeredOnly : UserRoute → Bool
  | .changePassword _ | .listKeys | .createKey | .revokeKey _ => true
  | _ => false

/-- The call the handler of a route makes, where `request.userId` is the user. -/
def UserRoute.call (userId : Uuid) : UserRoute → ServiceCall
  | .logout => .account (.logout userId)
  | .me => .account (.me userId)
  | .changePassword body => .account (.changePassword userId body.currentPassword body.newPassword)
  | .listKeys => .account (.listKeys userId)
  | .createKey => .account (.createKey userId)
  | .revokeKey id => .account (.revokeKey userId id)
  | .createUploadUrl body => .platform (.createUploadUrl userId body.toCreateUploadUrlInput)
  | .confirmUpload id => .platform (.confirmUpload userId id)
  | .listFiles query => .read (.listFiles userId (query.opts query.page))
  | .findFile id => .read (.findFile userId id)
  | .deleteFile id => .platform (.deleteFile userId id)
  | .downloadFile id => .read (.downloadFile userId id)
  | .createJob body => .platform (.createJob userId body.fileId body.type body.options)
  | .listJobs query => .read (.listJobs userId (query.opts query.page))
  | .findJob id => .read (.findJob userId id)
  | .cancelJob id => .platform (.cancelJob userId id)

/-- `requireRegisteredUser`. -/
def requireRegisteredUser (requester : JwtConfig.Requester) : Except Err Unit :=
  if requester.role = some .guest then .error (forbidden "GUEST_NOT_ALLOWED" "This action requires a registered account")
  else .ok ()

/-! ## What the handlers reply -/

/-- What a reply does to the cookie `refreshToken`. -/
inductive RefreshCookie where
  | kept
  | set (token : String)
  | cleared
  deriving DecidableEq, Repr

/-- The body of a reply. `stream` is the object of a file, `uploadUrl` what `createUploadUrl` returns; `error` is the body the error handler
sends, `fallback` the one Fastify makes of an error itself. -/
inductive ReplyBody where
  | empty
  | session (data : PublicUser) (accessToken : String)
  | accessToken (accessToken : String)
  | guest (accessToken : String)
  | user (data : PublicUser)
  | keys (data : List ApiKey)
  | key (data : ApiKey) (fullKey : String)
  | uploadUrl (data : CreateUploadUrlResult)
  | file (data : FileRow)
  | files (result : Paginated FileRow)
  | stream (file : FileRow) (stream : StoredObject)
  | job (data : JobRow)
  | jobs (result : Paginated JobRow)
  | error (code message : String)
  | fallback (code message : String)
  deriving DecidableEq, Repr

/-- A reply: its status, its body, the headers its handler sets where it is the handler's own, and what it does to the cookie. -/
structure HttpReply where
  statusCode : Nat
  body : ReplyBody
  headers : List (String × String) := []
  cookie : RefreshCookie := .kept
  deriving DecidableEq, Repr

/-- The reply of the error handler. -/
def ErrorReply.reply (e : ErrorReply) : HttpReply := { statusCode := e.statusCode, body := .error e.code e.message }

/-- The reply to a request whose service or preHandler threw. -/
def failed (e : Err) : HttpReply := (errorHandler e).reply

/-- The reply to a request the schema refuses. -/
def invalid (message : String) : HttpReply := ErrorReply.reply ⟨422, "VALIDATION_ERROR", message⟩

/-- The reply the handler makes of a call of `AuthService` or `ApiKeyService` that has ended. -/
def AccountTask.reply : AccountTask → Option HttpReply
  | .register _ _ (.returned session) =>
    some { statusCode := 201, body := .session session.user session.accessToken, cookie := .set session.refreshToken }
  | .login _ _ (.returned session) =>
    some { statusCode := 200, body := .session session.user session.accessToken, cookie := .set session.refreshToken }
  | .refresh _ (.returned accessToken) => some { statusCode := 200, body := .accessToken accessToken }
  | .logout _ .returned => some { statusCode := 204, body := .empty, cookie := .cleared }
  | .me _ (.returned user) => some { statusCode := 200, body := .user user }
  | .changePassword _ _ _ .returned => some { statusCode := 204, body := .empty }
  | .listKeys _ (.returned keys) => some { statusCode := 200, body := .keys keys }
  | .createKey _ (.returned key fullKey) => some { statusCode := 201, body := .key key fullKey }
  | .revokeKey _ _ .returned => some { statusCode := 204, body := .empty }
  | .register _ _ (.threw e) | .login _ _ (.threw e) | .refresh _ (.threw e) | .logout _ (.threw e) | .me _ (.threw e)
  | .changePassword _ _ _ (.threw e) | .listKeys _ (.threw e) | .createKey _ (.threw e) | .revokeKey _ _ (.threw e) => some (failed e)
  | _ => none

/-- The reply the handler makes of a call of `FileService` or `JobService` that has ended. -/
def Task.reply : Task → Option HttpReply
  | .createUploadUrl _ _ (.returned result) => some { statusCode := 201, body := .uploadUrl result }
  | .confirmUpload _ _ (.returned file) => some { statusCode := 200, body := .file file }
  | .deleteFile _ _ .returned => some { statusCode := 204, body := .empty }
  | .createJob _ _ _ _ (.returned job) => some { statusCode := 201, body := .job job }
  | .cancelJob _ _ .returned => some { statusCode := 204, body := .empty }
  | .createUploadUrl _ _ (.threw e) | .confirmUpload _ _ (.threw e) | .deleteFile _ _ (.threw e) | .createJob _ _ _ _ (.threw e)
  | .cancelJob _ _ (.threw e) => some (failed e)
  | _ => none

/-- What Node throws where the value of a header has a character it does not let through. -/
def invalidChar (header : String) : String := "Invalid character in header content [\"" ++ header ++ "\"]"

/-- What becomes of the stream of a download. Where Node refuses a header, the error handler is called; its reply has lost the
`Content-Type`, but not the `Content-Disposition`, and where that is what Node refuses, Fastify replies with the error itself. -/
def downloadReply (stream : StoredObject) (file : FileRow) : HttpReply :=
  if !HttpField.legal (contentDisposition file).toList then
    { statusCode := 500, body := .fallback "ERR_INVALID_CHAR" (invalidChar "content-disposition") }
  else if !HttpField.legal file.mimeType.toList then failed (.error (invalidChar "content-type"))
  else { statusCode := 200, body := .stream file stream, headers := downloadHeaders file }

/-- The reply the handler makes of a call that reads. -/
def ReadTask.reply : ReadTask → Option HttpReply
  | .listFiles _ _ (.returned page) => some { statusCode := 200, body := .files page }
  | .findFile _ _ (.returned file) => some { statusCode := 200, body := .file file }
  | .downloadFile _ _ (.returned stream file) => some (downloadReply stream file)
  | .listJobs _ _ (.returned page) => some { statusCode := 200, body := .jobs page }
  | .findJob _ _ (.returned job) => some { statusCode := 200, body := .job job }
  | .listFiles _ _ (.threw e) | .findFile _ _ (.threw e) | .downloadFile _ _ (.threw e) | .listJobs _ _ (.threw e)
  | .findJob _ _ (.threw e) => some (failed e)
  | _ => none

/-! ## What becomes of a request -/

/-- What is made of a request once it has arrived: it is answered at once, a service is called, or a guest session is created.
`requester` is what `authenticate` has set on the request. -/
inductive Handling where
  | answer (requester : Option JwtConfig.Requester) (reply : HttpReply)
  | call (requester : Option JwtConfig.Requester) (call : ServiceCall)
  | guestSession

/-- A route without a preHandler. -/
def handlePublic (refreshToken : Option String) : PublicRoute → Handling
  | .register body => .call none (.account (.register body.email body.password))
  | .login body => .call none (.account (.login body.email body.password))
  | .refresh =>
    match refreshToken with
    -- the empty string is falsy
    | none | some "" => .answer none (ErrorReply.reply ⟨401, "MISSING_REFRESH_TOKEN", "Refresh token cookie is missing"⟩)
    | some token => .call none (.account (.refresh token))
  | .guest => .guestSession

/-- A route behind `authenticate`. -/
def JwtConfig.handleUser (config : JwtConfig) (jwt : JsonWebToken) (now : Time) (authorization : Option String)
    (route : UserRoute) : Handling :=
  match config.authenticate jwt now authorization with
  | .error e => .answer none (failed e)
  | .ok requester =>
    if route.registeredOnly then
      match requireRegisteredUser requester with
      | .error e => .answer (some requester) (failed e)
      | .ok () => .call (some requester) (route.call requester.userId)
    else .call (some requester) (route.call requester.userId)

/-- What is made of a request. -/
def JwtConfig.handle (config : JwtConfig) (jwt : JsonWebToken) (now : Time) (req : HttpRequest) : Handling :=
  match req.target with
  | .rejected message => .answer none (invalid message)
  | .anyone route => handlePublic req.refreshToken route
  | .user route => config.handleUser jwt now req.authorization route

end FileProcessing
