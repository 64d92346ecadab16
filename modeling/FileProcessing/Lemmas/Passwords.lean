import FileProcessing.Lemmas.SessionCalls
import FileProcessing.Lib.Unicode

/-!
# The passwords of the accounts

The hash of a row is written by two statements: the insert of a `register` and the update of a `changePassword`. `latestPassword` reads
off a run which password was set last. The three calls that look at passwords end after a few calls of their own, and while one of them
is in progress and no other, nothing writes a hash but that call.
-/

namespace FileProcessing

open AuthService

variable {crypto : Crypto} {cfg : AuthServiceConfig} {s s' : Accounts}

/-! ## What `bcryptjs` reads of a password -/

/-- `bcryptjs` reads the first 72 bytes. -/
def bcryptBytes (password : String) : List UInt8 := (utf8Bytes password).take 72

/-- The hash is one of the password: `bcrypt.compare` looks at what `bcryptjs` reads. -/
def HashOf (crypto : Crypto) (passwordHash password : String) : Prop :=
  ∀ p, crypto.compare p passwordHash = true ↔ bcryptBytes p = bcryptBytes password

/-! ## The password set last -/

/-- The password a step sets, with the user it is set for: the insert of a `register` that succeeds, and the update of a
`changePassword`. -/
def passwordSet (crypto : Crypto) (s : Accounts) : AccountAction → Option (Uuid × String)
  | .exec i ch =>
    match s.tasks[i]? with
    | some (.register email password (.create passwordHash)) =>
      match ((AccountCall.createUser email passwordHash).exec crypto ch s.store).1 with
      | .ok user => some (user.id, password)
      | .error _ => none
    | some (.changePassword userId _ newPassword (.updatePassword _)) => some (userId, newPassword)
    | _ => none
  | _ => none

/-- The password set last for the user, in the steps of a run, the last first. -/
def latestPassword (crypto : Crypto) (u : Uuid) : List (Accounts × AccountAction) → Option String
  | [] => none
  | step :: past =>
    match passwordSet crypto step.1 step.2 with
    | some (v, password) => if v = u then some password else latestPassword crypto u past
    | none => latestPassword crypto u past

/-! ## The columns a sign-in looks at -/

/-- The id, the e-mail and the password hash of a user. -/
def User.credential (user : User) : Uuid × String × String := (user.id, user.email, user.passwordHash)

/-- Those of a table. -/
def credentials (users : Table User.id) : List (Uuid × String × String) := users.rows.map User.credential

/-- They are all that `findByEmail` looks for. -/
theorem credential_findByEmail (users : Table User.id) (email : String) :
    (UserRepository.findByEmail users email).map User.credential = (credentials users).find? (fun x => x.2.1 = email) := by
  unfold UserRepository.findByEmail Table.select credentials
  rw [List.head?_filter, List.find?_map]
  rfl

/-- And `findById`. -/
theorem credential_findById (users : Table User.id) (u : Uuid) :
    (UserRepository.findById users u).map User.credential = (credentials users).find? (fun x => x.1 = u) := by
  unfold UserRepository.findById Table.select credentials
  rw [List.head?_filter, List.find?_map]
  rfl

/-- The call writes a password hash. -/
def AccountCall.setsPassword : {α : Type} → AccountCall α → Bool
  | _, .createUser _ _ | _, .updatePassword _ _ => true
  | _, _ => false

/-- The other calls keep the credentials. -/
theorem credentials_exec {α : Type} {call : AccountCall α} (ch : AccountChoice) (a : AccountStore) (h : call.setsPassword = false) :
    credentials (call.exec crypto ch a).2.users = credentials a.users := by
  cases call with
  | createUser | updatePassword => cases h
  | setRefreshTokenHash userId hash =>
    show List.map _ (List.map _ _) = _
    rw [List.map_map]
    refine List.map_congr_left (fun user _ => ?_)
    by_cases hid : user.id = userId <;> simp [hid, User.credential]
  | createKey data =>
    rcases @exec_createKey crypto ch a data with he | ⟨apiKeys, he, -⟩ <;> rw [he]
  | deleteById | findByEmail | findById | bcryptHash | bcryptCompare | findByUserId | countByUserId => rfl

/-! ## The calls that look at passwords -/

/-- The call is a `register`, a `login` or a `changePassword`. -/
def AccountRequest.ofPassword : AccountRequest → Bool
  | .register _ _ | .login _ _ | .changePassword _ _ _ => true
  | _ => false

/-- The task is one of theirs. -/
def AccountTask.ofPassword : AccountTask → Bool
  | .register _ _ _ | .login _ _ _ | .changePassword _ _ _ _ => true
  | _ => false

/-- The password a call is about to hash. -/
def AccountTask.hashing : AccountTask → Option String
  | .register _ password .hash | .changePassword _ _ password .hash => some password
  | _ => none

/-- The hash a call is about to write, with its password. -/
def AccountTask.writing : AccountTask → Option (String × String)
  | .register _ password (.create passwordHash) | .changePassword _ _ password (.updatePassword passwordHash) =>
    some (passwordHash, password)
  | _ => none

@[simp] theorem ofPassword_task (now : Time) (r : AccountRequest) : (r.task crypto now).ofPassword = r.ofPassword := by
  cases r <;> rfl

@[simp] theorem writing_task (now : Time) (r : AccountRequest) : (r.task crypto now).writing = none := by
  cases r <;> rfl

/-- A call stays what it is. -/
theorem ofPassword_next {t : AccountTask} {aw : AccountAwait AccountTask} {now : Time} {random : BitVec 192}
    (hn : t.next crypto cfg now random = some aw) (r : Except Err aw.α) : (aw.resume r).ofPassword = t.ofPassword := by
  cases t with
  | register | login | refresh | logout | me | changePassword | listKeys | createKey | revokeKey =>
    obtain ⟨aw, -, rfl⟩ := Option.map_eq_some_iff.1 hn
    rfl

/-- A call that writes a hash has it with its password. -/
theorem writing_of_sets {t : AccountTask} {aw : AccountAwait AccountTask} {now : Time} {random : BitVec 192}
    (hn : t.next crypto cfg now random = some aw) (hw : aw.call.setsPassword = true) :
    (∃ email password passwordHash, t = .register email password (.create passwordHash)) ∨
      ∃ u current password passwordHash, t = .changePassword u current password (.updatePassword passwordHash) := by
  cases t with
  | register email password p =>
    obtain ⟨aw, hp, rfl⟩ := Option.map_eq_some_iff.1 hn
    cases p with
    | create passwordHash => exact Or.inl ⟨email, password, passwordHash, rfl⟩
    | findByEmail | hash | setRefreshTokenHash =>
      cases hp
      cases hw
    | returned | threw => cases hp
  | changePassword u current password p =>
    obtain ⟨aw, hp, rfl⟩ := Option.map_eq_some_iff.1 hn
    cases p with
    | updatePassword passwordHash => exact Or.inr ⟨u, current, password, passwordHash, rfl⟩
    | findById | compare | hash =>
      cases hp
      cases hw
    | returned | threw => cases hp
  | login email password p | refresh token p | logout u p | me u p | listKeys u p | createKey u p | revokeKey u k p =>
    obtain ⟨aw, hp, rfl⟩ := Option.map_eq_some_iff.1 hn
    cases p <;> cases hp <;> cases hw

/-- The hash a call is about to write was made from its password in the step before. -/
theorem hashing_of_writing {t : AccountTask} {aw : AccountAwait AccountTask} {a : AccountStore} {ch : AccountChoice}
    {passwordHash password : String} (hn : t.next crypto cfg a.now ch.random = some aw)
    (hw : (aw.resume (aw.call.exec crypto ch a).1).writing = some (passwordHash, password)) :
    t.hashing = some password ∧ passwordHash = ch.text := by
  cases t with
  | register email password' p =>
    obtain ⟨aw, hp, rfl⟩ := Option.map_eq_some_iff.1 hn
    cases p with
    | hash =>
      cases hp
      cases hw
      exact ⟨rfl, rfl⟩
    | findByEmail =>
      cases hp
      dsimp only [AccountAwait.map, AccountCall.exec] at hw
      by_cases hnul : nul ∈ email.toList
      · rw [if_pos hnul] at hw
        cases hw
      rw [if_neg hnul] at hw
      cases hfound : UserRepository.findByEmail a.users email <;> rw [hfound] at hw <;> cases hw
    | create passwordHash =>
      cases hp
      dsimp only [AccountAwait.map] at hw
      cases hx : ((AccountCall.createUser email passwordHash).exec crypto ch a).1 <;> rw [hx] at hw <;> cases hw
    | setRefreshTokenHash =>
      cases hp
      cases hw
    | returned | threw => cases hp
  | changePassword u current password' p =>
    obtain ⟨aw, hp, rfl⟩ := Option.map_eq_some_iff.1 hn
    cases p with
    | hash =>
      cases hp
      cases hw
      exact ⟨rfl, rfl⟩
    | findById =>
      cases hp
      dsimp only [AccountAwait.map, AccountCall.exec] at hw
      cases hfound : UserRepository.findById a.users u <;> rw [hfound] at hw <;> cases hw
    | compare user =>
      cases hp
      dsimp only [AccountAwait.map, AccountCall.exec] at hw
      split at hw <;> cases hw
    | updatePassword =>
      cases hp
      cases hw
    | returned | threw => cases hp
  | login | refresh | logout | me | listKeys | createKey | revokeKey =>
    obtain ⟨aw, -, rfl⟩ := Option.map_eq_some_iff.1 hn
    cases hw

/-! ## They come to an end -/

/-- The number of calls that are left at most. -/
def AccountTask.remaining : AccountTask → Nat
  | .register _ _ .findByEmail => 4
  | .register _ _ .hash => 3
  | .register _ _ (.create _) => 2
  | .login _ _ .findByEmail => 3
  | .login _ _ (.compare _) => 2
  | .changePassword _ _ _ .findById => 4
  | .changePassword _ _ _ (.compare _) => 3
  | .changePassword _ _ _ .hash => 2
  | .register _ _ (.setRefreshTokenHash _) | .login _ _ (.setRefreshTokenHash _) | .changePassword _ _ _ (.updatePassword _) => 1
  | _ => 0

/-- Every call made leaves fewer. -/
theorem remaining_next {t : AccountTask} {aw : AccountAwait AccountTask} {now : Time} {random : BitVec 192} (ht : t.ofPassword = true)
    (hn : t.next crypto cfg now random = some aw) (r : Except Err aw.α) : (aw.resume r).remaining < t.remaining := by
  cases t with
  | register email password p =>
    obtain ⟨aw, hp, rfl⟩ := Option.map_eq_some_iff.1 hn
    cases p with
    | findByEmail =>
      cases hp
      cases r with
      | error e => simp [AccountAwait.map, AccountTask.remaining]
      | ok found => cases found <;> simp [AccountAwait.map, AccountTask.remaining]
    | hash | create =>
      cases hp
      cases r <;> simp [AccountAwait.map, AccountTask.remaining]
    | setRefreshTokenHash =>
      cases hp
      cases r <;> exact Nat.one_pos
    | returned | threw => cases hp
  | login email password p =>
    obtain ⟨aw, hp, rfl⟩ := Option.map_eq_some_iff.1 hn
    cases p with
    | findByEmail =>
      cases hp
      cases r with
      | error e => simp [AccountAwait.map, AccountTask.remaining]
      | ok found => cases found <;> simp [AccountAwait.map, AccountTask.remaining]
    | compare user =>
      cases hp
      cases r with
      | error e => simp [AccountAwait.map, AccountTask.remaining]
      | ok valid => cases valid <;> simp [AccountAwait.map, AccountTask.remaining]
    | setRefreshTokenHash =>
      cases hp
      cases r <;> exact Nat.one_pos
    | returned | threw => cases hp
  | changePassword u current password p =>
    obtain ⟨aw, hp, rfl⟩ := Option.map_eq_some_iff.1 hn
    cases p with
    | findById =>
      cases hp
      cases r with
      | error e => simp [AccountAwait.map, AccountTask.remaining]
      | ok found => cases found <;> simp [AccountAwait.map, AccountTask.remaining]
    | compare user =>
      cases hp
      cases r with
      | error e => simp [AccountAwait.map, AccountTask.remaining]
      | ok valid => cases valid <;> simp [AccountAwait.map, AccountTask.remaining]
    | hash =>
      cases hp
      cases r <;> simp [AccountAwait.map, AccountTask.remaining]
    | updatePassword =>
      cases hp
      cases r <;> exact Nat.one_pos
    | returned | threw => cases hp
  | refresh | logout | me | listKeys | createKey | revokeKey => cases ht

/-- A call that has none left has ended. -/
theorem ended_of_next {t : AccountTask} {now : Time} {random : BitVec 192} (hn : t.next crypto cfg now random = none) :
    t.ended crypto cfg = true := by
  cases t with
  | register email password p | login email password p | refresh token p | logout userId p | me userId p
  | changePassword userId currentPassword newPassword p | listKeys userId p | createKey userId p | revokeKey userId keyId p =>
    cases p <;> first | rfl | cases hn

/-- A call that looks at passwords comes to its end by its own steps. -/
theorem password_ends {i : Nat} {t : AccountTask} (cfg : AuthServiceConfig) (hi : s.tasks[i]? = some t) (ht : t.ofPassword = true) :
    ∃ s' t', (accounts crypto cfg).Steps (Alone i) s s' ∧ s'.tasks[i]? = some t' ∧ t'.ended crypto cfg = true := by
  induction hrem : t.remaining using Nat.strongRecOn generalizing s t with
  | ind n ih =>
    obtain ⟨ch⟩ : Nonempty AccountChoice := ⟨⟨⟨0⟩, "", 0, []⟩⟩
    cases hn : t.next crypto cfg s.store.now ch.random with
    | none =>
      exact ⟨s, t, .refl, hi, ended_of_next hn⟩
    | some aw =>
      have hfewer := remaining_next ht hn (aw.call.exec crypto ch s.store).1
      obtain ⟨s', t', hsteps, hi', hend⟩ := ih _ (hrem ▸ hfewer) (resume_self aw ch hi) ((ofPassword_next hn _).trans ht) rfl
      exact ⟨s', t', (Lts.Steps.single (.exec i ch) ⟨ch, rfl⟩ (exec_resumes hi hn)).trans hsteps, hi', hend⟩

end FileProcessing
