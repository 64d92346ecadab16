import FileProcessing.Lib.Lts
import FileProcessing.Lib.Pool
import FileProcessing.Api.ApiKeyService
import FileProcessing.Api.AuthService

/-!
# The accounts, interleaved

A state is the account store, the pool of the calls of `AuthService` and `ApiKeyService`, and the log: the refresh tokens handed
out, the sign-outs called and the refresh tokens presented, the last first. A step starts a call, lets one call make its next
repository call, or lets time pass.
-/

namespace FileProcessing

open AuthService ApiKeyService

/-- A call of the two services. -/
inductive AccountRequest where
  | register (email password : String)
  | login (email password : String)
  | refresh (token : String)
  | logout (userId : Uuid)
  | me (userId : Uuid)
  | changePassword (userId : Uuid) (currentPassword newPassword : String)
  | listKeys (userId : Uuid)
  | createKey (userId : Uuid)
  | revokeKey (userId keyId : Uuid)
  deriving DecidableEq, Repr

/-- A call with its arguments, at one of its suspension points. -/
inductive AccountTask where
  | register (email password : String) (p : Register)
  | login (email password : String) (p : Login)
  | refresh (token : String) (p : Refresh)
  | logout (userId : Uuid) (p : Logout)
  | me (userId : Uuid) (p : Me)
  | changePassword (userId : Uuid) (currentPassword newPassword : String) (p : ChangePassword)
  | listKeys (userId : Uuid) (p : ListKeys)
  | createKey (userId : Uuid) (p : CreateKey)
  | revokeKey (userId keyId : Uuid) (p : RevokeKey)
  deriving DecidableEq, Repr

/-- The task a call starts. -/
def AccountRequest.task (crypto : Crypto) (now : Time) : AccountRequest → AccountTask
  | .register email password => .register email password .findByEmail
  | .login email password => .login email password .findByEmail
  | .refresh token => .refresh token (refresh.start crypto now token)
  | .logout userId => .logout userId .setRefreshTokenHash
  | .me userId => .me userId .findById
  | .changePassword userId currentPassword newPassword => .changePassword userId currentPassword newPassword .findById
  | .listKeys userId => .listKeys userId .findByUserId
  | .createKey userId => .createKey userId .countByUserId
  | .revokeKey userId keyId => .revokeKey userId keyId .deleteById

/-- What a call does next: the repository call it awaits, and the task it becomes. -/
def AccountTask.next (crypto : Crypto) (cfg : AuthServiceConfig) (now : Time) (random : BitVec 192) :
    AccountTask → Option (AccountAwait AccountTask)
  | .register email password p =>
    (AuthService.register crypto cfg now email password p).map (·.map (.register email password))
  | .login email password p => (AuthService.login crypto cfg now email password p).map (·.map (.login email password))
  | .refresh token p => (AuthService.refresh crypto cfg now token p).map (·.map (.refresh token))
  | .logout userId p => (AuthService.logout userId p).map (·.map (.logout userId))
  | .me userId p => (AuthService.me userId p).map (·.map (.me userId))
  | .changePassword userId currentPassword newPassword p =>
    (AuthService.changePassword userId currentPassword newPassword p).map
      (·.map (.changePassword userId currentPassword newPassword))
  | .listKeys userId p => (ApiKeyService.listKeys userId p).map (·.map (.listKeys userId))
  | .createKey userId p => (ApiKeyService.createKey crypto random userId p).map (·.map (.createKey userId))
  | .revokeKey userId keyId p => (ApiKeyService.revokeKey userId keyId p).map (·.map (.revokeKey userId keyId))

/-- An entry of the log. -/
inductive AuthEvent where
  | issued (userId : Uuid) (token : String)
  | loggedOut (userId : Uuid)
  | presented (userId : Uuid) (token : String)
  deriving DecidableEq, Repr

/-- The session a `register` or `login` is about to complete: the call it makes next is its last. -/
def AccountTask.completing : AccountTask → Option Session
  | .register _ _ (.setRefreshTokenHash session) | .login _ _ (.setRefreshTokenHash session) => some session
  | _ => none

/-- What the log records when a task makes its next call. -/
def AccountTask.logged (t : AccountTask) : List AuthEvent :=
  match t.completing with
  | some session => [.issued session.user.id session.refreshToken]
  | none => []

/-- The user of a refresh token that `refresh` would accept at this time, if the session still stood. -/
def subjectOf (crypto : Crypto) (now : Time) (token : String) : Option Uuid :=
  (verifyRefreshToken crypto now token).bind (fun payload => payload.sub)

/-- What the log records when a call starts: a sign-out, or a refresh token that has not expired. -/
def AccountRequest.logged (crypto : Crypto) (now : Time) : AccountRequest → List AuthEvent
  | .logout userId => [.loggedOut userId]
  | .refresh token =>
    match subjectOf crypto now token with
    | some userId => [.presented userId token]
    | none => []
  | _ => []

/-- The refresh token was handed out. -/
def HandedOut (log : List AuthEvent) (token : String) : Prop := ∃ userId, .issued userId token ∈ log

instance (log : List AuthEvent) (token : String) : Decidable (HandedOut log token) :=
  decidable_of_iff (log.any (fun e => match e with | .issued _ t => t = token | _ => false) = true) (by
    unfold HandedOut
    rw [List.any_eq_true]
    constructor
    · rintro ⟨e, he, ht⟩
      cases e with
      | issued userId t =>
        have h : t = token := by simpa using ht
        exact ⟨userId, h ▸ he⟩
      | loggedOut | presented => simp at ht
    · rintro ⟨userId, he⟩
      exact ⟨.issued userId token, he, by simp⟩)

/-- A call a client can make. The secret signs nothing but what the service signs, so a refresh token that verifies was handed
out. -/
def AccountRequest.Possible (crypto : Crypto) (now : Time) (log : List AuthEvent) : AccountRequest → Prop
  | .refresh token => verifyRefreshToken crypto now token = none ∨ HandedOut log token
  | _ => True

instance (crypto : Crypto) (now : Time) (log : List AuthEvent) : (r : AccountRequest) → Decidable (r.Possible crypto now log)
  | .refresh token => inferInstanceAs (Decidable (verifyRefreshToken crypto now token = none ∨ HandedOut log token))
  | .register _ _ | .login _ _ | .logout _ | .me _ | .changePassword _ _ _ | .listKeys _ | .createKey _ | .revokeKey _ _ =>
    isTrue trivial

/-- The store, the calls and the log. -/
structure Accounts where
  store : AccountStore
  tasks : List AccountTask
  log : List AuthEvent

/-- The state before the first step. -/
def Accounts.empty : Accounts := ⟨AccountStore.empty, [], []⟩

/-- One step. -/
inductive AccountAction where
  | call (r : AccountRequest)
  | exec (i : Nat) (ch : AccountChoice)
  | tick (ms : Nat)
  deriving DecidableEq, Repr

/-- The step of the accounts; `none` where the step is not possible. -/
def Accounts.step (crypto : Crypto) (cfg : AuthServiceConfig) (s : Accounts) : AccountAction → Option Accounts
  | .call r =>
    if r.Possible crypto s.store.now s.log then
      some { s with tasks := s.tasks ++ [r.task crypto s.store.now], log := r.logged crypto s.store.now ++ s.log }
    else none
  | .exec i ch =>
    match s.tasks[i]? with
    | none => none
    | some t =>
      match t.next crypto cfg s.store.now ch.random with
      | none => none
      | some aw => some
        { store := (aw.call.exec crypto ch s.store).2
          tasks := s.tasks.set i (aw.resume (aw.call.exec crypto ch s.store).1)
          log := t.logged ++ s.log }
  | .tick ms => some { s with store := { s.store with now := s.store.now + ms } }

/-- The accounts as a labelled transition system: its runs begin in the empty state. -/
def accounts (crypto : Crypto) (cfg : AuthServiceConfig) : Lts Accounts AccountAction where
  init s := s = Accounts.empty
  step := Accounts.step crypto cfg

/-! ## Runs written out

A signature scheme and a digest that can be evaluated, and the calls with which such runs begin. A token is the text that spells its
claims in unary; user 1 is the account the runs register. -/

namespace Trace

/-- The claims spelled out: `n` times a letter for the number `n`. -/
def spell (payload : JwtPayload) : String :=
  String.ofList (List.replicate (match payload.sub with
    | none => 0
    | some userId => userId.bits.toNat + 1) 's' ++ List.replicate payload.iat 'i' ++ List.replicate payload.exp 'e')

/-- The claims a text spells. -/
def read (token : String) : JwtPayload where
  sub := match token.toList.count 's' with
    | 0 => none
    | n + 1 => some ⟨BitVec.ofNat 128 n⟩
  iat := token.toList.count 'i'
  exp := token.toList.count 'e'

theorem read_spell (payload : JwtPayload) : read (spell payload) = payload := by
  obtain ⟨sub, iat, exp⟩ := payload
  have hi : (spell ⟨sub, iat, exp⟩).toList.count 'i' = iat := by simp [spell, List.count_replicate]
  have he : (spell ⟨sub, iat, exp⟩).toList.count 'e' = exp := by simp [spell, List.count_replicate]
  unfold read
  rw [hi, he]
  cases sub with
  | none =>
    have hs : (spell ⟨none, iat, exp⟩).toList.count 's' = 0 := by simp [spell, List.count_replicate]
    rw [hs]
  | some userId =>
    have hs : (spell ⟨some userId, iat, exp⟩).toList.count 's' = userId.bits.toNat + 1 := by
      simp [spell, List.count_replicate]
    rw [hs]
    simp

/-- A scheme to evaluate runs with: a text verifies when it is what its claims are spelled as. -/
def crypto : Crypto where
  signAccess payload := "access:" ++ spell payload
  signRefresh := spell
  decodeRefresh token := if spell (read token) = token then some (read token) else none
  compare password passwordHash := passwordHash = "bcrypt:" ++ password
  sha256 text := "sha256:" ++ text
  decode_sign payload := by rw [read_spell, if_pos rfl]
  sha256_injective a b h := by simpa using h
  sha256_ne text := by simp

/-- Short lifetimes, in seconds. -/
def ttl : AuthServiceConfig := ⟨5, 20⟩

/-- A list of steps runs through from the start to a state that passes a test. -/
theorem reachAccounts {as : List AccountAction} {p : Accounts → Bool}
    (h : ((accounts crypto ttl).run Accounts.empty as).any p = true) :
    ∃ s, (accounts crypto ttl).Reach Lts.Free s ∧ p s = true := by
  obtain ⟨s, hs, hp⟩ := Lts.steps_of_any h
  exact ⟨s, ⟨Accounts.empty, rfl, hs⟩, hp⟩

/-- Call `i` makes its next repository call; an insert is issued the id `n`, `bcrypt.hash` returns the hash of "secret". -/
def query (i n : Nat) : AccountAction := .exec i ⟨uuid n, "bcrypt:secret", BitVec.ofNat 192 n, []⟩

/-- User 1 registers, as call 0. -/
def signUp : List AccountAction := [.call (.register "a@b.c" "secret"), query 0 0, query 0 0, query 0 1, query 0 0]

/-- User 1 signs in, as call `i`. -/
def signIn (i : Nat) : List AccountAction := [.call (.login "a@b.c" "secret"), query i 0, query i 0, query i 0]

/-- The refresh token user 1 is handed out when it is signed in the given second. -/
def token (second : Nat) : String := spell ⟨some (uuid 1), second, second + 20⟩

end Trace

end FileProcessing
