import Mathlib.Data.List.Infix
import FileProcessing.Lib.Lts

/-!
# The HTTP client: the interceptors of `apiClient`

The requests of the page and the refresh the response interceptor sends for them. A request is transmitted in the step that makes it.
Its response arrives at any time, and the interceptor then runs up to its `await`. What runs when a promise has settled, the `finally`
of the refresh and the rest of the interceptor, are steps of their own, and those of other requests may come before them.
-/

namespace FileProcessing

/-- What the interceptors read and write of the config of a request. -/
structure RequestConfig where
  url : Option String
  retry : Bool
  authorization : Option String
  deriving DecidableEq, Repr

/-- The data of a response: `null`, or a value with its `accessToken` where it has one. -/
inductive ResponseData where
  | null
  | value (accessToken : Option String)
  deriving DecidableEq, Repr

structure AxiosResponse where
  data : ResponseData
  deriving DecidableEq, Repr

/-- An error of the client, with the status of its response where there was one. -/
structure AxiosError where
  status : Option Nat
  message : String
  deriving DecidableEq, Repr

/-- What a network call, and the promise of a request, settles with. -/
abbrev Answer := Except AxiosError AxiosResponse

/-- Who has made a call: a page, or the interceptor, whose call is the refresh; whether the `finally` of that one has run. -/
inductive Sender where
  | caller
  | interceptor (cleared : Bool)
  deriving DecidableEq, Repr

/-- Where a call stands: on its way to the server or back; answered with an error and awaiting the refresh that call `shared` is;
settled. -/
inductive CallState where
  | sent
  | awaiting (shared : Nat) (error : AxiosError)
  | settled (result : Answer)
  deriving Repr

/-- A call of `apiClient`. No code reads the last three: how often it was transmitted, the answers it has had, and the refresh it
has awaited. -/
structure ApiCall where
  sender : Sender
  config : RequestConfig
  state : CallState
  transmitted : Nat
  answers : List Answer
  awaited : Option Nat
  deriving Repr

/-- The tokens of the two stores, `refreshPromise` by the call it is of, and the calls. -/
structure ApiClient where
  accessToken : Option String
  guestToken : Option String
  refreshPromise : Option Nat
  calls : List ApiCall
  deriving Repr

/-- What happens: a page makes a request, call `i` is answered, the `finally` of the refresh `k` runs, the interceptor resumes for
call `i`, another part of the page writes the stores. -/
inductive HttpAction where
  | send (url : Option String)
  | answer (i : Nat) (answer : Answer)
  | clear (k : Nat)
  | resume (i : Nat)
  | store (accessToken guestToken : Option String)
  deriving Repr

def isRefreshEndpoint (config : RequestConfig) : Bool := "/auth/refresh".toList <:+: (config.url.getD "").toList

/-- The test of the response interceptor. -/
def refreshes (config : RequestConfig) (error : AxiosError) : Bool :=
  error.status = some 401 && !config.retry && !isRefreshEndpoint config

/-- What `refreshPromise` fulfils with, or `none` when it is rejected: `r.data.accessToken` throws where the data is `null`. -/
def newToken : Answer → Option (Option String)
  | .ok ⟨.value accessToken⟩ => some accessToken
  | .ok ⟨.null⟩ | .error _ => none

/-- The result of a call that has settled. -/
def CallState.result : CallState → Option Answer
  | .settled result => some result
  | .sent | .awaiting _ _ => none

namespace ApiClient

/-- The request interceptor. -/
def onRequest (s : ApiClient) (config : RequestConfig) : RequestConfig :=
  match s.accessToken <|> s.guestToken with
  | some token => if token = "" then config else { config with authorization := some ("Bearer " ++ token) }
  | none => config

/-- A new call is transmitted. -/
def request (s : ApiClient) (sender : Sender) (url : Option String) : ApiClient :=
  { s with calls := s.calls ++ [⟨sender, s.onRequest ⟨url, false, none⟩, .sent, 1, [], none⟩] }

def put (s : ApiClient) (i : Nat) (call : ApiCall) : ApiClient := { s with calls := s.calls.set i call }

/-- The call `refreshPromise` is of, once the interceptor has made sure that there is one. -/
def shared (s : ApiClient) : Nat := s.refreshPromise.getD s.calls.length

def ensureRefresh (s : ApiClient) : ApiClient :=
  match s.refreshPromise with
  | some _ => s
  | none => { s.request (.interceptor false) (some "/auth/refresh") with refreshPromise := some s.calls.length }

/-- The response interceptor up to its `await`, or to its end where it awaits nothing. -/
def onResponse (s : ApiClient) (i : Nat) (call : ApiCall) (answer : Answer) : ApiClient :=
  match answer with
  | .ok _ => s.put i { call with state := .settled answer, answers := call.answers ++ [answer] }
  | .error error =>
    if refreshes call.config error then
      s.ensureRefresh.put i
        { call with
          config := { call.config with retry := true }
          state := .awaiting s.shared error
          answers := call.answers ++ [answer]
          awaited := some s.shared }
    else s.put i { call with state := .settled answer, answers := call.answers ++ [answer] }

/-- The refresh `k` once its `finally` has run, which is when those who await it resume. -/
def sharedResult (s : ApiClient) (k : Nat) : Option Answer :=
  match s.calls[k]? with
  | some call => if call.sender = .interceptor true then call.state.result else none
  | none => none

/-- What follows the `await`: with a new token the request is transmitted again, with the config it had and its `_retry`, and the
promise of the call is that of this request; otherwise the `catch`. -/
def onRefreshed (s : ApiClient) (i : Nat) (call : ApiCall) (error : AxiosError) : Option (Option String) → ApiClient
  | some token =>
    let s' := { s with accessToken := token }
    s'.put i
      { call with
        config := s'.onRequest { call.config with authorization := some ("Bearer " ++ token.getD "undefined") }
        state := .sent
        transmitted := call.transmitted + 1 }
  | none => { s.put i { call with state := .settled (.error error) } with accessToken := none }

/-- The step of the client; `none` where it is not possible. -/
def step (s : ApiClient) : HttpAction → Option ApiClient
  | .send url => some (s.request .caller url)
  | .answer i answer =>
    match s.calls[i]? with
    | some call =>
      match call.state with
      | .sent => some (s.onResponse i call answer)
      | .awaiting _ _ | .settled _ => none
    | none => none
  | .clear k =>
    match s.calls[k]? with
    | some call =>
      if call.sender = .interceptor false ∧ call.state.result.isSome then
        some { s.put k { call with sender := .interceptor true } with refreshPromise := none }
      else none
    | none => none
  | .resume i =>
    match s.calls[i]? with
    | some call =>
      match call.state with
      | .awaiting k error => (s.sharedResult k).map (fun result => s.onRefreshed i call error (newToken result))
      | .sent | .settled _ => none
    | none => none
  | .store accessToken guestToken => some { s with accessToken, guestToken }

end ApiClient

/-- The client as a labelled transition system: its runs begin when the module is loaded. -/
def apiClient : Lts ApiClient HttpAction where
  init s := s.refreshPromise = none ∧ s.calls = []
  step := ApiClient.step

end FileProcessing
