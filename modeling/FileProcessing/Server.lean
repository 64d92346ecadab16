import FileProcessing.Api.Routes

/-!
# The server, from the requests to the database

A state is the whole database with the calls on it, the requests that have come in with what has become of each, and the handshakes of
`/ws`. A step receives a request, opens a socket, sends the reply to a request whose call has ended, or is a step of the rest: the calls
go on, the worker and the sweeps run, clients upload, time passes. What a request starts is started whoever it is for: nothing but the
preHandlers looks at the caller.
-/

namespace FileProcessing

/-- A request that has come in: what `authenticate` has set on it, the call its handler awaits with its place among the calls of its
kind, and the reply sent. -/
structure Exchange where
  request : HttpRequest
  requester : Option JwtConfig.Requester
  call : Option (ServiceCall × Nat)
  reply : Option HttpReply

/-- A handshake of `/ws`: the token of the query, and the user the socket was added under. -/
structure Handshake where
  token : Option String
  userId : Option String

/-- The database with the calls on it, the requests and the handshakes. -/
structure Server where
  tenants : Tenants
  exchanges : List Exchange
  handshakes : List Handshake

/-- The server before the first step. -/
def Server.empty : Server := ⟨Tenants.empty, [], []⟩

/-- One step. `random` is a fresh UUID, for the handler that generates one. -/
inductive ServerAction where
  | http (request : HttpRequest) (random : Uuid)
  | socket (token : Option String)
  | reply (e : Nat)
  | tenants (a : TenantAction)

/-- What the model takes from elsewhere, and the settings. -/
structure ServerEnv where
  jwt : JsonWebToken
  rest : Crypto
  ilike : String → String → Bool
  config : Config
  auth : JwtConfig

/-- The environment of the services. -/
def ServerEnv.env (env : ServerEnv) : Env where
  crypto := env.auth.crypto env.jwt env.rest
  ilike := env.ilike
  config := env.config
  auth := env.auth.toAuthServiceConfig

/-- The place a call takes among those of its kind. -/
def Tenants.place (c : Tenants) : ServiceCall → Nat
  | .account _ => c.calls.length
  | .platform _ => c.system.tasks.length
  | .read _ => c.reads.length

/-- A call of a service begins. -/
def Tenants.start (env : Env) (c : Tenants) (random : Uuid) : ServiceCall → Tenants
  | .account r => { c with calls := c.calls ++ [r.task env.crypto c.world.now] }
  | .platform r =>
    { c with system := { c.system with world := c.world.issue random }.spawn (r.task env.config random) }
  | .read r => { c with reads := c.reads ++ [r.task] }

/-- `AuthService.createGuestSession`: the id is new, and nothing is stored. -/
def Tenants.guestSession (c : Tenants) (id : Uuid) : Tenants :=
  { c with system := { c.system with world := { c.world.issue id with sessions := id :: c.world.sessions } } }

/-- The reply to a call that has ended. -/
def Tenants.replyOf (c : Tenants) : ServiceCall × Nat → Option HttpReply
  | (.account _, i) => (c.calls[i]?).bind AccountTask.reply
  | (.platform _, i) => (c.system.tasks[i]?).bind Task.reply
  | (.read _, i) => (c.reads[i]?).bind ReadTask.reply

/-- The step is none a request makes: it starts no call and begins no session. -/
def TenantAction.ofRest : TenantAction → Bool
  | .platform (.request _ _) | .platform (.guestSession _) | .call _ | .read _ => false
  | _ => true

/-- The reply to `POST /auth/guest`. -/
def guestReply (accessToken : String) : HttpReply := { statusCode := 201, body := .guest accessToken }

/-- A request comes in. -/
def Server.receive (env : ServerEnv) (s : Server) (req : HttpRequest) (random : Uuid) : Server :=
  match env.auth.handle env.jwt s.tenants.world.now req with
  | .answer requester reply => { s with exchanges := s.exchanges ++ [⟨req, requester, none, some reply⟩] }
  | .call requester call =>
    { s with
      tenants := s.tenants.start env.env random call
      exchanges := s.exchanges ++ [⟨req, requester, some (call, s.tenants.place call), none⟩] }
  | .guestSession =>
    { s with
      tenants := s.tenants.guestSession random
      exchanges := s.exchanges ++
        [⟨req, none, none, some (guestReply (env.auth.signAccessToken env.jwt s.tenants.world.now random (some .guest)))⟩] }

/-- The step; `none` where it is not possible. -/
def Server.step (env : ServerEnv) (s : Server) : ServerAction → Option Server
  | .http req random => if random ∈ s.tenants.world.issued then none else some (s.receive env req random)
  | .socket token =>
    some { s with handshakes := s.handshakes ++ [⟨token, env.auth.wsHandshake env.jwt s.tenants.world.now token⟩] }
  | .reply e =>
    match s.exchanges[e]? with
    | none => none
    | some x =>
      match x.reply, x.call.bind s.tenants.replyOf with
      | none, some reply => some { s with exchanges := s.exchanges.set e { x with reply := some reply } }
      | _, _ => none
  | .tenants a =>
    if a.ofRest then (Tenants.step env.env s.tenants a).map (fun tenants => { s with tenants := tenants }) else none

/-- The server as a labelled transition system: its runs begin in the empty state. -/
def server (env : ServerEnv) : Lts Server ServerAction where
  init s := s = Server.empty
  step := Server.step env

end FileProcessing
