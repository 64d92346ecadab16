import FileProcessing.Lib.Lts
import FileProcessing.Api.AuthService

/-!
# The web client's session: `authStore`, `apiClient` and who awaits a request

The store with its three actions, the interceptors of `apiClient` with the refresh the waiting requests share, and the callers that
write the store when a request settles: the two forms, `handleLogout` and the `bootstrap` of the page. A response arrives at any
time; the continuations it runs, up to the next request or timer, are one step, and so are those of all requests that wait for the
shared refresh when it settles.
-/

namespace FileProcessing

open AuthService

/-- An access token, with the user it was signed for. -/
structure AccessToken where
  text : String
  sub : Uuid
  deriving DecidableEq, Repr

/-- The state of `useAuthStore`. -/
structure AuthState where
  accessToken : Option AccessToken
  user : Option PublicUser
  deriving DecidableEq, Repr

namespace AuthState

def setAuth (token : AccessToken) (user : PublicUser) (_ : AuthState) : AuthState := ⟨some token, some user⟩

def setAccessToken (token : Option AccessToken) (state : AuthState) : AuthState := { state with accessToken := token }

def clearAuth (_ : AuthState) : AuthState := ⟨none, none⟩

end AuthState

/-- Who awaits a request: a page that does nothing with the session, a form, `handleLogout`, or `bootstrap`, at its refresh or,
once it has its token, at its `getMe`. -/
inductive Caller where
  | page
  | login
  | register
  | logout
  | bootRefresh
  | bootMe (token : AccessToken)
  deriving DecidableEq, Repr

/-- `bootstrap` sends its requests itself. -/
def Caller.boot : Caller → Bool
  | .bootRefresh | .bootMe _ => true
  | _ => false

/-- Where a request stands: under way, with the access token and the refresh cookie it was sent with and whether it is a retry;
answered 401 and waiting for the shared refresh; answered, with the timer of `useRegisterForm` to run out; or settled. -/
inductive RequestState where
  | sent (retry : Bool) (authorization : Option AccessToken) (cookie : Option Uuid)
  | waiting
  | timer (token : AccessToken) (user : PublicUser)
  | settled
  deriving DecidableEq, Repr

/-- A request and who awaits it. -/
structure ClientRequest where
  caller : Caller
  state : RequestState
  deriving DecidableEq, Repr

/-- The body of a response that succeeds. -/
inductive ResponseBody where
  | empty
  | session (accessToken : AccessToken) (user : PublicUser)
  | accessToken (accessToken : AccessToken)
  | user (user : PublicUser)
  deriving DecidableEq, Repr

/-- A response: it succeeds, is a 401, or fails otherwise (another status, no response). -/
inductive Response where
  | ok (body : ResponseBody)
  | unauthorized
  | failed
  deriving DecidableEq, Repr

/-- The page: the store, the user whose refresh cookie the browser holds, the shared refresh under way with the cookie it was sent
with, the requests, whether `bootstrap` has ended, and whether `handleLogout` has cleared the store with no `login` or `register`
having succeeded since. -/
structure Client where
  store : AuthState
  cookie : Option Uuid
  refreshPromise : Option (Option Uuid)
  requests : List ClientRequest
  booted : Bool
  signedOut : Bool
  deriving DecidableEq, Repr

/-- The page once it is loaded in a browser that holds a refresh cookie, or none: `bootstrap` has sent its refresh. -/
def Client.load (cookie : Option Uuid) : Client where
  store := ⟨none, none⟩
  cookie := cookie
  refreshPromise := none
  requests := [⟨.bootRefresh, .sent false none cookie⟩]
  booted := false
  signedOut := false

namespace Client

/-- What the server answers: a session or a profile is of one user, a refreshed token is for the user of the cookie. -/
def Answers (authorization : Option AccessToken) (cookie : Option Uuid) : Caller → Response → Prop
  | .page, .ok body | .logout, .ok body => body = .empty
  | .login, .ok body | .register, .ok body => ∃ token user, body = .session token user ∧ token.sub = user.id
  | .bootRefresh, .ok body => ∃ token, body = .accessToken token ∧ cookie = some token.sub
  | .bootMe _, .ok body => ∃ user, body = .user user ∧ authorization.map AccessToken.sub = some user.id
  | _, .unauthorized | _, .failed => True

/-- Put request `i` in another state. -/
def put (s : Client) (i : Nat) (caller : Caller) (state : RequestState) : Client :=
  { s with requests := s.requests.set i ⟨caller, state⟩ }

/-- What becomes of a caller whose request has succeeded. -/
def resolve (s : Client) (i : Nat) : Caller → ResponseBody → Client
  | .page, _ => s.put i .page .settled
  | .login, .session token user =>
    { s.put i .login .settled with store := s.store.setAuth token user, cookie := some user.id, signedOut := false }
  | .register, .session token user => { s.put i .register (.timer token user) with cookie := some user.id, signedOut := false }
  | .logout, _ => { s.put i .logout .settled with store := s.store.clearAuth, cookie := none, signedOut := true }
  | .bootRefresh, .accessToken token =>
    -- `getMe` is sent at once, with the token just set
    { s.put i (.bootMe token) (.sent false (some token) s.cookie) with store := s.store.setAccessToken (some token) }
  | .bootMe token, .user user => { s.put i (.bootMe token) .settled with store := s.store.setAuth token user, booted := true }
  | caller, _ => s.put i caller .settled

/-- What becomes of a caller whose request was rejected: the forms show an error, `handleLogout` proceeds, `bootstrap` ends. -/
def reject (s : Client) (i : Nat) (caller : Caller) : Client :=
  match caller with
  | .page | .login | .register => s.put i caller .settled
  | .logout => { s.put i caller .settled with store := s.store.clearAuth, signedOut := true }
  | .bootRefresh | .bootMe _ => { s.put i caller .settled with booted := true }

/-- The interceptor on a 401: a request that is no retry and no refresh waits for the shared refresh, which is sent if there is
none; any other is rejected. -/
def unauthorized (s : Client) (i : Nat) (caller : Caller) (retry : Bool) : Client :=
  if retry = false ∧ caller ≠ .bootRefresh then
    { s.put i caller .waiting with refreshPromise := some (s.refreshPromise.getD s.cookie) }
  else s.reject i caller

/-- The request was answered 401 and waits for the shared refresh. -/
def waits (r : ClientRequest) : Bool := r.state = .waiting

/-- The shared refresh settles. With a token, each request that waits sets the token and is sent once more; without, each clears the
store and is rejected. They all write the same to the store. -/
def refreshed (s : Client) : Option AccessToken → Client
  | some token =>
    { s with
      refreshPromise := none
      store := if s.requests.any waits then s.store.setAccessToken (some token) else s.store
      requests := s.requests.map (fun r => if waits r then { r with state := .sent true (some token) s.cookie } else r) }
  | none =>
    { s with
      refreshPromise := none
      store := if s.requests.any waits then s.store.clearAuth else s.store
      requests := s.requests.map (fun r => if waits r then { r with state := .settled } else r)
      signedOut := s.signedOut || s.requests.any (fun r => waits r && r.caller = .logout)
      booted := s.booted || s.requests.any (fun r => waits r && r.caller.boot) }

end Client

/-- What happens on the page: a page, a form or `handleLogout` sends a request, a response arrives, the shared refresh settles, a
timer of `useRegisterForm` runs out. -/
inductive ClientAction where
  | send (caller : Caller)
  | response (i : Nat) (response : Response)
  | refreshed (result : Option AccessToken)
  | fire (i : Nat)
  deriving DecidableEq, Repr

instance (authorization : Option AccessToken) (cookie : Option Uuid) :
    (caller : Caller) → (response : Response) → Decidable (Client.Answers authorization cookie caller response)
  | .page, .ok body | .logout, .ok body => inferInstanceAs (Decidable (body = .empty))
  | .login, .ok body | .register, .ok body =>
    match body with
    | .session token user => decidable_of_iff (token.sub = user.id) (by simp [Client.Answers])
    | .empty | .accessToken _ | .user _ => isFalse (by simp [Client.Answers])
  | .bootRefresh, .ok body =>
    match body with
    | .accessToken token => decidable_of_iff (cookie = some token.sub) (by simp [Client.Answers])
    | .empty | .session _ _ | .user _ => isFalse (by simp [Client.Answers])
  | .bootMe _, .ok body =>
    match body with
    | .user user => decidable_of_iff (authorization.map AccessToken.sub = some user.id) (by simp [Client.Answers])
    | .empty | .session _ _ | .accessToken _ => isFalse (by simp [Client.Answers])
  | .page, .unauthorized | .login, .unauthorized | .register, .unauthorized | .logout, .unauthorized | .bootRefresh, .unauthorized
  | .bootMe _, .unauthorized | .page, .failed | .login, .failed | .register, .failed | .logout, .failed | .bootRefresh, .failed
  | .bootMe _, .failed => isTrue trivial

/-- The step of the page; `none` where it is not possible. The page is rendered, and requests are sent, once `bootstrap` has
ended. -/
def Client.step (s : Client) : ClientAction → Option Client
  | .send caller =>
    if s.booted ∧ caller.boot = false then
      some { s with requests := s.requests ++ [⟨caller, .sent false s.store.accessToken s.cookie⟩] }
    else none
  | .response i response =>
    match s.requests[i]? with
    | some ⟨caller, .sent retry authorization cookie⟩ =>
      if Client.Answers authorization cookie caller response then
        match response with
        | .ok body => some (s.resolve i caller body)
        | .unauthorized => some (s.unauthorized i caller retry)
        | .failed => some (s.reject i caller)
      else none
    | _ => none
  | .refreshed result =>
    match s.refreshPromise with
    | none => none
    | some cookie =>
      match result with
      | some token => if cookie = some token.sub then some (s.refreshed (some token)) else none
      | none => some (s.refreshed none)
  | .fire i =>
    match s.requests[i]? with
    | some ⟨caller, .timer token user⟩ => some { s.put i caller .settled with store := s.store.setAuth token user }
    | _ => none

/-- The page as a labelled transition system: its runs begin when it is loaded in a browser with the given refresh cookie. -/
def webClient (cookie : Option Uuid) : Lts Client ClientAction where
  init s := s = Client.load cookie
  step := Client.step

end FileProcessing
