import FileProcessing.Lemmas.Sessions

/-!
# What the calls do to a session

The part a call of `AuthService` or `ApiKeyService` plays for the stored hash (`Role`), what its next repository call does to the
hash, one statement for each role, and what every run keeps of the accounts and the log.
-/

namespace FileProcessing

open AuthService

variable {crypto : Crypto} {cfg : AuthServiceConfig} {s s' : Accounts}

/-! ## What a call is about to do to a session -/

/-- What a call is about to do to the stored hash: complete a session, clear the hash of a user, or read it to judge a token. -/
inductive Role where
  | completing (session : Session)
  | clearing (userId : Uuid)
  | reading (token : String) (userId : Uuid)
  | other
  deriving DecidableEq, Repr

def AccountTask.role : AccountTask → Role
  | .register _ _ (.setRefreshTokenHash session) | .login _ _ (.setRefreshTokenHash session) => .completing session
  | .refresh token (.findById userId) => .reading token userId
  | .refresh _ (.setRefreshTokenHash userId) | .logout userId .setRefreshTokenHash => .clearing userId
  | _ => .other

/-- Whether a `refresh` that has ended succeeded. -/
def AccountTask.refreshed : AccountTask → Option Bool
  | .refresh _ (.returned _) => some true
  | .refresh _ (.threw _) => some false
  | _ => none

/-- The call has ended. -/
def AccountTask.ended (crypto : Crypto) (cfg : AuthServiceConfig) (t : AccountTask) : Bool := (t.next crypto cfg 0 0).isNone

/-! ## What a call does -/

theorem next_of_ended {t : AccountTask} (h : t.ended crypto cfg = true) (now : Time) (random : BitVec 192) :
    t.next crypto cfg now random = none := by
  unfold AccountTask.ended at h
  cases t with
  | register email password p | login email password p | refresh token p | logout userId p | me userId p
  | changePassword userId currentPassword newPassword p | listKeys userId p | createKey userId p | revokeKey userId keyId p =>
    cases p <;> first | rfl | cases h

theorem next_of_role {t : AccountTask} (h : t.role ≠ .other) (now : Time) (random : BitVec 192) :
    t.next crypto cfg now random ≠ none := by
  cases t with
  | register email password p | login email password p | refresh token p | logout userId p =>
    cases p <;> first | exact absurd rfl h | (intro hnone; cases hnone)
  | me | changePassword | listKeys | createKey | revokeKey => exact absurd rfl h

/-- The token verifies as one of the user. -/
def Signed (crypto : Crypto) (u : Uuid) (token : String) : Prop :=
  ∃ payload, crypto.decodeRefresh token = some payload ∧ payload.sub = some u

/-- The session a call is about to complete has a token of its user, who has a row. -/
def SessionMade (crypto : Crypto) (users : Table User.id) (session : Session) : Prop :=
  Signed crypto session.user.id session.refreshToken ∧ HasUser users session.user.id

theorem sessionMade_new {users : Table User.id} {now : Time} {user : User} (h : HasUser users user.id) :
    SessionMade crypto users (newSession crypto cfg now user) :=
  ⟨⟨_, crypto.decode_sign _, rfl⟩, h⟩

/-- A call that completes a session sets the hash and ends. -/
theorem exec_completing {t : AccountTask} {aw : AccountAwait AccountTask} {session : Session} {a : AccountStore}
    {ch : AccountChoice} (hn : t.next crypto cfg a.now ch.random = some aw) (hr : t.role = .completing session) :
    (aw.call.exec crypto ch a).2.users =
        UserRepository.setRefreshTokenHash a.users a.now session.user.id (some (hashToken crypto session.refreshToken)) ∧
      (aw.resume (aw.call.exec crypto ch a).1).role = .other ∧ t.logged = [.issued session.user.id session.refreshToken] := by
  cases t with
  | register email password p | login email password p =>
    cases p <;> cases hr
    cases hn
    exact ⟨rfl, rfl, rfl⟩
  | refresh token p | logout userId p => cases p <;> cases hr
  | me | changePassword | listKeys | createKey | revokeKey => cases hr

/-- A call that clears the hash of a user clears it and ends; a `refresh` then throws. -/
theorem exec_clearing {t : AccountTask} {aw : AccountAwait AccountTask} {u : Uuid} {a : AccountStore} {ch : AccountChoice}
    (hn : t.next crypto cfg a.now ch.random = some aw) (hr : t.role = .clearing u) :
    (aw.call.exec crypto ch a).2.users = UserRepository.setRefreshTokenHash a.users a.now u none ∧
      (aw.resume (aw.call.exec crypto ch a).1).role = .other ∧ t.logged = [] ∧
      (aw.resume (aw.call.exec crypto ch a).1).refreshed ≠ some true := by
  cases t with
  | refresh token p | logout userId p =>
    cases p <;> cases hr
    cases hn
    exact ⟨rfl, rfl, rfl, by intro h; cases h⟩
  | register email password p | login email password p => cases p <;> cases hr
  | me | changePassword | listKeys | createKey | revokeKey => cases hr

/-- What becomes of a `refresh` that reads the stored hash. -/
inductive Judged (crypto : Crypto) (token : String) (u : Uuid) : Option String → AccountTask → Prop where
  | passed (accessToken : String) : Judged crypto token u (some (hashToken crypto token)) (.refresh token (.returned accessToken))
  | absent (err : Err) : Judged crypto token u none (.refresh token (.threw err))
  | empty (err : Err) : Judged crypto token u (some "") (.refresh token (.threw err))
  | reused (hash : String) (h : hash ≠ hashToken crypto token) (h0 : hash ≠ "") :
    Judged crypto token u (some hash) (.refresh token (.setRefreshTokenHash u))

theorem Judged.role_ne {token : String} {u : Uuid} {found : Option String} {t : AccountTask} (h : Judged crypto token u found t)
    (session : Session) : t.role ≠ .completing session := by
  cases h <;> simp [AccountTask.role]

theorem Judged.role_ne_reading {token : String} {u : Uuid} {found : Option String} {t : AccountTask}
    (h : Judged crypto token u found t) (token' : String) (v : Uuid) : t.role ≠ .reading token' v := by
  cases h <;> simp [AccountTask.role]

/-- A `refresh` that reads the stored hash changes nothing and is judged by it. -/
theorem exec_reading {t : AccountTask} {aw : AccountAwait AccountTask} {token : String} {u : Uuid} {a : AccountStore}
    {ch : AccountChoice} (hn : t.next crypto cfg a.now ch.random = some aw) (hr : t.role = .reading token u) :
    (aw.call.exec crypto ch a).2 = a ∧ t.logged = [] ∧
      Judged crypto token u (hashOf a.users u) (aw.resume (aw.call.exec crypto ch a).1) := by
  cases t with
  | refresh token' p =>
    cases p with
    | findById v =>
      cases hr
      cases hn
      refine ⟨rfl, rfl, ?_⟩
      simp only [AccountCall.exec, AccountAwait.map, hashOf]
      generalize (UserRepository.findById a.users u).bind (fun user => user.refreshTokenHash) = found
      cases found with
      | none => exact .absent _
      | some hash =>
        by_cases h0 : hash = ""
        · subst h0
          exact .empty _
        by_cases he : hash = hashToken crypto token
        · subst he
          simp only [if_neg h0]
          rw [if_neg (by simp)]
          exact .passed _
        · simp only [if_neg h0, if_pos he]
          exact .reused hash he h0
    | setRefreshTokenHash | returned | threw => cases hr
  | logout userId p | register email password p | login email password p => cases p <;> cases hr
  | me | changePassword | listKeys | createKey | revokeKey => cases hr

/-- A `login` that has found its user has found a row. -/
def ComparesRow (users : Table User.id) (t : AccountTask) : Prop :=
  ∀ email password user, t = .login email password (.compare user) → HasUser users user.id

/-- Any other call leaves every stored hash alone; it may be about to complete a session then. -/
theorem exec_other {t : AccountTask} {aw : AccountAwait AccountTask} {a : AccountStore} {ch : AccountChoice}
    (hn : t.next crypto cfg a.now ch.random = some aw) (hr : t.role = .other) (hc : ComparesRow a.users t) :
    (∀ u, hashOf (aw.call.exec crypto ch a).2.users u = hashOf a.users u) ∧ t.logged = [] ∧
      ((aw.resume (aw.call.exec crypto ch a).1).role = .other ∨
        ∃ session, (aw.resume (aw.call.exec crypto ch a).1).role = .completing session ∧
          SessionMade crypto (aw.call.exec crypto ch a).2.users session) := by
  have quiet (hw : aw.call.writes = none) (hl : t.logged = []) (ho : ∀ r, (aw.resume r).role = .other) :
      (∀ u, hashOf (aw.call.exec crypto ch a).2.users u = hashOf a.users u) ∧ t.logged = [] ∧
        ((aw.resume (aw.call.exec crypto ch a).1).role = .other ∨
          ∃ session, (aw.resume (aw.call.exec crypto ch a).1).role = .completing session ∧
            SessionMade crypto (aw.call.exec crypto ch a).2.users session) :=
    ⟨hashOf_exec ch a hw, hl, Or.inl (ho _)⟩
  cases t with
  | register email password p =>
    cases p with
    | findByEmail =>
      cases hn
      refine quiet rfl rfl ?_
      rintro (e | (_ | user)) <;> rfl
    | hash =>
      cases hn
      refine quiet rfl rfl ?_
      rintro (e | passwordHash) <;> rfl
    | create passwordHash =>
      cases hn
      refine ⟨hashOf_exec ch a rfl, rfl, ?_⟩
      simp only [AccountAwait.map]
      rcases exec_createUser ch a email passwordHash with he | ⟨users, he, hcreate, -⟩
      · rw [he]
        exact Or.inl rfl
      rw [he]
      refine Or.inr ⟨_, rfl, sessionMade_new ?_⟩
      unfold HasUser
      rw [(findById_create hcreate).2.2]
      simp [UserRepository.newRow]
    | setRefreshTokenHash => cases hr
    | returned | threw => cases hn
  | login email password p =>
    cases p with
    | findByEmail =>
      cases hn
      refine quiet rfl rfl ?_
      rintro (e | (_ | user)) <;> rfl
    | compare user =>
      cases hn
      refine ⟨hashOf_exec ch a rfl, rfl, ?_⟩
      simp only [AccountCall.exec, AccountAwait.map]
      split
      · exact Or.inr ⟨_, rfl, sessionMade_new (hc email password user rfl)⟩
      · exact Or.inl rfl
    | setRefreshTokenHash => cases hr
    | returned | threw => cases hn
  | refresh token p =>
    cases p with
    | findById | setRefreshTokenHash => cases hr
    | returned | threw => cases hn
  | logout userId p =>
    cases p with
    | setRefreshTokenHash => cases hr
    | returned | threw => cases hn
  | me userId p | listKeys userId p | revokeKey userId keyId p =>
    cases p <;> cases hn
    exact quiet rfl rfl (fun _ => rfl)
  | changePassword userId currentPassword newPassword p | createKey userId p =>
    cases p <;> cases hn <;> exact quiet rfl rfl (fun _ => rfl)

/-- After its first call a `login` has found a row, if it goes on. -/
theorem comparesRow_exec {t : AccountTask} {aw : AccountAwait AccountTask} {a : AccountStore} {ch : AccountChoice}
    (hn : t.next crypto cfg a.now ch.random = some aw) :
    ComparesRow (aw.call.exec crypto ch a).2.users (aw.resume (aw.call.exec crypto ch a).1) := by
  intro email password user he
  cases t with
  | login email' password' p =>
    cases p with
    | findByEmail =>
      cases hn
      simp only [AccountCall.exec, AccountAwait.map] at he ⊢
      by_cases hnul : nul ∈ email'.toList
      · rw [if_pos hnul] at he
        cases he
      rw [if_neg hnul] at he
      cases hfound : UserRepository.findByEmail a.users email' with
      | none =>
        rw [hfound] at he
        cases he
      | some found =>
        rw [hfound] at he
        cases he
        unfold HasUser
        rw [findById_of_email hfound]
        rfl
    | compare user' =>
      cases hn
      simp only [AccountCall.exec, AccountAwait.map] at he
      split at he <;> cases he
    | setRefreshTokenHash session =>
      cases hn
      cases he
    | returned | threw => cases hn
  | register email password p | refresh token p | logout userId p | me userId p
  | changePassword userId currentPassword newPassword p | listKeys userId p | createKey userId p | revokeKey userId keyId p =>
    cases p <;> cases hn <;> cases he

/-! ## What every run keeps -/

/-- The calls that start hand nothing out. -/
theorem logged_not_issued (r : AccountRequest) (now : Time) (u : Uuid) (token : String) :
    .issued u token ∉ r.logged crypto now := by
  cases r with
  | refresh token' =>
    simp only [AccountRequest.logged]
    split <;> simp
  | logout | register | login | me | changePassword | listKeys | createKey | revokeKey => simp [AccountRequest.logged]

/-- No call begins with the completion of a session. -/
theorem role_task (r : AccountRequest) (now : Time) (session : Session) : (r.task crypto now).role ≠ .completing session := by
  cases r with
  | refresh token =>
    simp only [AccountRequest.task, refresh.start]
    split
    · simp [AccountTask.role]
    split <;> simp [AccountTask.role]
  | logout | register | login | me | changePassword | listKeys | createKey | revokeKey => simp [AccountRequest.task, AccountTask.role]

/-- What every run keeps, orderly or not: tokens are handed out to the users they are signed for, sessions are made for users who
have a row, and a stored hash is that of the current token. -/
structure SessionsRecorded (crypto : Crypto) (s : Accounts) : Prop where
  signed : ∀ u token, .issued u token ∈ s.log → Signed crypto u token
  compares : ∀ t ∈ s.tasks, ComparesRow s.store.users t
  made : ∀ t ∈ s.tasks, ∀ session, t.role = .completing session → SessionMade crypto s.store.users session
  stored : ∀ u hash, hashOf s.store.users u = some hash →
    ∃ token, currentToken u s.log = some token ∧ hash = hashToken crypto token

/-- The start of a call keeps this: it hands nothing out, and completes nothing. -/
theorem sessionsRecorded_start (hI : SessionsRecorded crypto s) (r : AccountRequest) : SessionsRecorded crypto (s.start crypto r) := by
  refine ⟨?_, ?_, ?_, ?_⟩
  · intro u token hmem
    rcases List.mem_append.1 hmem with h | h
    · exact absurd h (logged_not_issued r s.store.now u token)
    · exact hI.signed u token h
  · intro t ht
    rcases List.mem_append.1 ht with h | h
    · exact hI.compares t h
    · rw [List.mem_singleton.1 h]
      intro email password user he
      cases r <;> cases he
  · intro t ht session hr
    rcases List.mem_append.1 ht with h | h
    · exact hI.made t h session hr
    · rw [List.mem_singleton.1 h] at hr
      exact absurd hr (role_task r s.store.now session)
  · intro u hash hh
    unfold currentToken
    simp only [Accounts.start]
    rw [tokensOf_append (logged_not_issued r s.store.now u)]
    exact hI.stored u hash hh

section Resumes

variable {i : Nat} {ch : AccountChoice} {t : AccountTask} {aw : AccountAwait AccountTask}

/-- A call keeps this when the session it is about to complete is sound, and so are the token it hands out and the hashes stored. -/
theorem sessionsRecorded_resume (hI : SessionsRecorded crypto s) (hn : t.next crypto cfg s.store.now ch.random = some aw)
    (hnew : ∀ session, (aw.resume (aw.call.exec crypto ch s.store).1).role = .completing session →
      SessionMade crypto (s.resume crypto i t aw ch).store.users session)
    (hsigned : ∀ u token, .issued u token ∈ t.logged → Signed crypto u token)
    (hstored : ∀ u hash, hashOf (s.resume crypto i t aw ch).store.users u = some hash →
      ∃ token, currentToken u (s.resume crypto i t aw ch).log = some token ∧ hash = hashToken crypto token) :
    SessionsRecorded crypto (s.resume crypto i t aw ch) := by
  have grown : ∀ u, HasUser s.store.users u → HasUser (s.resume crypto i t aw ch).store.users u := fun u h => h.exec ch aw.call
  refine ⟨?_, ?_, ?_, hstored⟩
  · intro u token hlog
    rcases List.mem_append.1 hlog with h | h
    · exact hsigned u token h
    · exact hI.signed u token h
  · intro t' ht' email password user he
    rcases List.mem_or_eq_of_mem_set ht' with h | rfl
    · exact grown _ (hI.compares t' h email password user he)
    · exact comparesRow_exec hn email password user he
  · intro t' ht' session hr
    rcases List.mem_or_eq_of_mem_set ht' with h | rfl
    · exact ⟨(hI.made t' h session hr).1, grown _ (hI.made t' h session hr).2⟩
    · exact hnew session hr

/-- A call that hands nothing out keeps this when every hash it leaves was stored before. -/
theorem sessionsRecorded_quiet (hI : SessionsRecorded crypto s) (hn : t.next crypto cfg s.store.now ch.random = some aw)
    (hlog : t.logged = [])
    (hnew : ∀ session, (aw.resume (aw.call.exec crypto ch s.store).1).role = .completing session →
      SessionMade crypto (s.resume crypto i t aw ch).store.users session)
    (hkept : ∀ u hash, hashOf (aw.call.exec crypto ch s.store).2.users u = some hash → hashOf s.store.users u = some hash) :
    SessionsRecorded crypto (s.resume crypto i t aw ch) := by
  refine sessionsRecorded_resume hI hn hnew ?_ ?_
  · intro u token h
    rw [hlog] at h
    cases h
  · intro u hash hh
    simp only [Accounts.resume]
    rw [hlog]
    exact hI.stored u hash (hkept u hash hh)

/-- A call that completes a session hands out its token and stores its hash. -/
theorem sessionsRecorded_completing (hI : SessionsRecorded crypto s) (ht : s.tasks[i]? = some t)
    (hn : t.next crypto cfg s.store.now ch.random = some aw) {session : Session} (hr : t.role = .completing session) :
    SessionsRecorded crypto (s.resume crypto i t aw ch) := by
  obtain ⟨husers, hrole, hlog⟩ := exec_completing hn hr
  have hmade := hI.made t (List.mem_of_getElem? ht) session hr
  refine sessionsRecorded_resume hI hn ?_ ?_ ?_
  · intro session' h
    rw [hrole] at h
    cases h
  · intro u token h
    rw [hlog] at h
    cases List.mem_singleton.1 h
    exact hmade.1
  · intro u hash hh
    simp only [Accounts.resume] at hh ⊢
    rw [husers] at hh
    rw [hlog, List.singleton_append]
    by_cases hu : session.user.id = u
    · subst hu
      rw [hashOf_set_self hmade.2] at hh
      cases hh
      refine ⟨session.refreshToken, ?_, rfl⟩
      unfold currentToken
      rw [tokensOf_issued, List.head?_cons]
    · rw [hashOf_set_ne (Ne.symm hu)] at hh
      unfold currentToken
      rw [tokensOf_issued_ne hu]
      exact hI.stored u hash hh

end Resumes

theorem sessionsRecorded_step {a : AccountAction} (hI : SessionsRecorded crypto s) (hs : (accounts crypto cfg).step s a = some s') :
    SessionsRecorded crypto s' := by
  cases Accounts.moves hs with
  | tick ms => exact ⟨hI.signed, hI.compares, hI.made, hI.stored⟩
  | call r => exact sessionsRecorded_start hI r
  | exec i ch t aw ht hn =>
    cases hr : t.role with
    | completing session => exact sessionsRecorded_completing hI ht hn hr
    | clearing v =>
      obtain ⟨husers, hrole, hlog, -⟩ := exec_clearing hn hr
      refine sessionsRecorded_quiet hI hn hlog ?_ ?_
      · intro session' h
        rw [hrole] at h
        cases h
      · intro u hash hh
        rw [husers] at hh
        by_cases hu : u = v
        · rw [hu, hashOf_clear] at hh
          cases hh
        · rwa [hashOf_set_ne hu] at hh
    | reading token v =>
      obtain ⟨hstore, hlog, hjudged⟩ := exec_reading hn hr
      refine sessionsRecorded_quiet hI hn hlog ?_ ?_
      · intro session' h
        exact absurd h (hjudged.role_ne session')
      · intro u hash hh
        rwa [hstore] at hh
    | other =>
      obtain ⟨hsame, hlog, hrole⟩ := exec_other hn hr (hI.compares t (List.mem_of_getElem? ht))
      refine sessionsRecorded_quiet hI hn hlog ?_ ?_
      · intro session' h
        rcases hrole with hrole | ⟨session, hrole, hmade⟩
        · rw [hrole] at h
          cases h
        · rw [hrole] at h
          cases h
          exact hmade
      · intro u hash hh
        rwa [hsame] at hh

theorem sessionsRecorded {ok : Accounts → AccountAction → Prop} (h : (accounts crypto cfg).Reach ok s) : SessionsRecorded crypto s := by
  refine h.invariant ?_ (fun s a s' _ hI _ hs => sessionsRecorded_step hI hs)
  rintro s rfl
  exact ⟨by simp [Accounts.empty], by simp [Accounts.empty], by simp [Accounts.empty], fun u hash hh => by cases hh⟩

end FileProcessing
