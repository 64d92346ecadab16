import FileProcessing.Accounts
import FileProcessing.Api.TestStubs

/-!
# What a test of `AuthService` runs

The methods of `AuthService` over what stands behind `IUserRepository`: the repository on the database, or the double of the tests. A
test starts a call, lets a call come to its next suspension point, or lets time pass. A test that awaits each call before it makes the
next has no two in progress.
-/

namespace FileProcessing

/-- What stands behind `IUserRepository`, with the clock and the UUIDs generated so far. -/
structure UserBackend (X : Type) where
  now : X → Time
  issued : X → List Uuid
  wait : X → Nat → X
  exec : AccountChoice → X → {α : Type} → AccountCall α → Except Err α × X

/-- `new UserRepository(db)`. -/
def onDatabase (crypto : Crypto) : UserBackend AccountStore where
  now a := a.now
  issued a := a.issued
  wait a ms := { a with now := a.now + ms }
  exec ch a _ call := call.exec crypto ch a

/-- The double, with the clock and the UUIDs generated so far. -/
structure TestStore where
  users : InMemoryUserRepository
  issued : List Uuid
  now : Time

/-- The double before the first call. -/
def TestStore.empty : TestStore := ⟨⟨Table.empty⟩, [], 0⟩

/-- What the double makes of a call. -/
def AccountCall.double (crypto : Crypto) (ch : AccountChoice) (d : TestStore) :
    {α : Type} → AccountCall α → Except Err α × TestStore
  | _, .findByEmail email => (.ok (d.users.findByEmail email), d)
  | _, .findById id => (.ok (d.users.findById id), d)
  | _, .createUser email passwordHash =>
    let (user, users) := d.users.create ⟨ch.id, d.now⟩ email passwordHash
    (.ok user, { d with users := users, issued := ch.id :: d.issued })
  | _, .setRefreshTokenHash userId hash => (.ok (), { d with users := d.users.setRefreshTokenHash ⟨ch.id, d.now⟩ userId hash })
  | _, .updatePassword userId passwordHash =>
    (.ok (), { d with users := d.users.updatePassword ⟨ch.id, d.now⟩ userId passwordHash })
  | _, .bcryptHash _ => (.ok ch.text, d)
  | _, .bcryptCompare password passwordHash => (.ok (crypto.compare password passwordHash), d)
  -- the keys are behind another interface
  | _, .findByUserId _ | _, .countByUserId _ | _, .createKey _ | _, .deleteById _ _ => (.error rejected, d)

/-- `new InMemoryUserRepository()`. -/
def inMemory (crypto : Crypto) : UserBackend TestStore where
  now d := d.now
  issued d := d.issued
  wait d ms := { d with now := d.now + ms }
  exec ch d _ call := call.double crypto ch d

/-- A call of `AuthService`, with an address that `registerBodySchema` admits where it registers, and one without a NUL where it logs in:
`loginBodySchema` admits any, but PostgreSQL refuses a NUL. -/
def AccountRequest.onUsers : AccountRequest → Bool
  | .register email _ => email.length ≤ 255 && nul ∉ email.toList
  | .login email _ => nul ∉ email.toList
  | .refresh _ | .logout _ | .me _ | .changePassword _ _ _ => true
  | .listKeys _ | .createKey _ | .revokeKey _ _ => false

/-- The call has returned or thrown. -/
def AccountTask.done : AccountTask → Bool
  | .register _ _ (.returned _) | .register _ _ (.threw _) => true
  | .login _ _ (.returned _) | .login _ _ (.threw _) => true
  | .refresh _ (.returned _) | .refresh _ (.threw _) => true
  | .logout _ .returned | .logout _ (.threw _) => true
  | .me _ (.returned _) | .me _ (.threw _) => true
  | .changePassword _ _ _ .returned | .changePassword _ _ _ (.threw _) => true
  | .listKeys _ (.returned _) | .listKeys _ (.threw _) => true
  | .createKey _ (.returned _ _) | .createKey _ (.threw _) => true
  | .revokeKey _ _ .returned | .revokeKey _ _ (.threw _) => true
  | _ => false

/-- A test: what stands behind the interface, and the calls of `AuthService` made so far. -/
structure Bench (X : Type) where
  store : X
  tasks : List AccountTask

/-- One step of a test. -/
inductive BenchAction where
  | call (r : AccountRequest)
  | exec (i : Nat) (ch : AccountChoice)
  | wait (ms : Nat)
  deriving DecidableEq, Repr

/-- The step; `none` where it is not possible. Only where calls may overlap does one begin before those made earlier have ended; no
UUID is generated twice. -/
def Bench.step {X : Type} (B : UserBackend X) (crypto : Crypto) (cfg : AuthServiceConfig) (overlapping : Bool) (b : Bench X) :
    BenchAction → Option (Bench X)
  | .call r =>
    if r.onUsers && (overlapping || b.tasks.all AccountTask.done) then
      some { b with tasks := b.tasks ++ [r.task crypto (B.now b.store)] }
    else none
  | .exec i ch =>
    if ch.id ∈ B.issued b.store then none
    else match b.tasks[i]? with
      | none => none
      | some t =>
        match t.next crypto cfg (B.now b.store) ch.random with
        | none => none
        | some aw => some
          { store := (B.exec ch b.store aw.call).2
            tasks := b.tasks.set i (aw.resume (B.exec ch b.store aw.call).1) }
  | .wait ms => some { b with store := B.wait b.store ms }

/-- The tests over a backend as a labelled transition system: they begin with what `beforeEach` makes. -/
def bench {X : Type} (B : UserBackend X) (start : X) (crypto : Crypto) (cfg : AuthServiceConfig) (overlapping : Bool) :
    Lts (Bench X) BenchAction where
  init b := b = ⟨start, []⟩
  step := Bench.step B crypto cfg overlapping

end FileProcessing
