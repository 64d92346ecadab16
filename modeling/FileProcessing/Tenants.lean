import FileProcessing.Accounts
import FileProcessing.Api.Reads
import FileProcessing.System

/-!
# The whole database, with every call on it

A state is the platform with the table `api_keys`, the calls of `AuthService` and `ApiKeyService` and the calls that only read. The
accounts share the table `users`, the clock, the UUIDs generated and the sessions of the platform, and an account begins by
`register`. A step is one of the platform, starts a call, or lets one call make its next call or see it fail in transit.
-/

namespace FileProcessing

/-- The platform, the API keys and the calls in progress. -/
structure Tenants where
  system : System
  apiKeys : Table ApiKeyRow.id
  calls : List AccountTask
  reads : List ReadTask

/-- The state before the first step. -/
def Tenants.empty : Tenants := ⟨System.empty, Table.empty, [], []⟩

/-- The world the tasks of the platform share. -/
def Tenants.world (c : Tenants) : World := c.system.world

/-- What the two services on accounts see. -/
def Tenants.store (c : Tenants) : AccountStore where
  users := c.world.db.users
  apiKeys := c.apiKeys
  issued := c.world.issued
  sessions := c.world.sessions
  now := c.world.now

/-- The world with other tables of accounts, ids and sessions. -/
def World.setAccounts (w : World) (users : Table User.id) (issued sessions : List Uuid) : World :=
  { w with db := { w.db with users := users }, issued := issued, sessions := sessions }

/-- The state after a statement on the accounts. -/
def Tenants.setStore (c : Tenants) (a : AccountStore) : Tenants :=
  { c with
    system := { c.system with world := c.world.setAccounts a.users a.issued a.sessions }
    apiKeys := a.apiKeys }

/-- The user a call of the two services is authenticated as. -/
def AccountRequest.userId? : AccountRequest → Option Uuid
  | .register _ _ | .login _ _ | .refresh _ => none
  | .logout userId | .me userId | .changePassword userId _ _ | .listKeys userId | .createKey userId | .revokeKey userId _ =>
    some userId

/-- One step. -/
inductive TenantAction where
  | platform (a : Action)
  | call (r : AccountRequest)
  | exec (i : Nat) (ch : AccountChoice)
  | reject (i : Nat) (e : Err)
  | read (r : ReadRequest)
  | execRead (i : Nat) (countFirst : Bool) (ch : Choice)
  | rejectRead (i : Nat) (countFirst : Bool) (e : Err)
  deriving DecidableEq, Repr

/-- What the model takes from elsewhere, and the settings. -/
structure Env where
  crypto : Crypto
  ilike : String → String → Bool
  config : Config
  auth : AuthServiceConfig

/-- The step; `none` where it is not possible. -/
def Tenants.step (env : Env) (c : Tenants) : TenantAction → Option Tenants
  | .platform (.register _) => none
  | .platform a => (System.step env.config c.system a).map (fun system => { c with system := system })
  | .call r =>
    if ∀ userId ∈ r.userId?, userId ∈ c.world.sessions then
      some { c with calls := c.calls ++ [r.task env.crypto c.world.now] }
    else none
  | .exec i ch =>
    match c.calls[i]? with
    | none => none
    | some t =>
      match t.next env.crypto env.auth c.world.now ch.random with
      | none => none
      | some aw => some
        { c.setStore (aw.call.exec env.crypto ch c.store).2 with
          calls := c.calls.set i (aw.resume (aw.call.exec env.crypto ch c.store).1) }
  | .reject i e =>
    match c.calls[i]? with
    | none => none
    | some t =>
      -- no bytes are drawn when the call fails
      match t.next env.crypto env.auth c.world.now 0 with
      | none => none
      | some aw => some { c with calls := c.calls.set i (aw.resume (.error e)) }
  | .read r => if r.userId ∈ c.world.sessions then some { c with reads := c.reads ++ [r.task] } else none
  | .execRead i countFirst ch =>
    match c.reads[i]? with
    | none => none
    | some t =>
      match t.next countFirst with
      | none => none
      | some aw => some { c with
          system := { c.system with world := (aw.call.exec env.ilike ch c.world).2 }
          reads := c.reads.set i (aw.resume (aw.call.exec env.ilike ch c.world).1) }
  | .rejectRead i countFirst e =>
    match c.reads[i]? with
    | none => none
    | some t =>
      match t.next countFirst with
      | none => none
      | some aw => some { c with reads := c.reads.set i (aw.resume (.error e)) }

/-- The whole as a labelled transition system: its runs begin in the empty state. -/
def tenants (env : Env) : Lts Tenants TenantAction where
  init c := c = Tenants.empty
  step := Tenants.step env

end FileProcessing
