import FileProcessing.Lemmas.Passwords

/-!
# Which passwords sign in

`bcryptjs` reads 72 bytes of a password, and the schema admits 128 characters. A password signs in when what `bcryptjs` reads of it is
what it reads of the password set last, which says the same as that it is that password unless it is a longer one that begins alike.
-/

namespace FileProcessing

open AuthService

variable {crypto : Crypto} {cfg : AuthServiceConfig} {s s' : Accounts} {a : AccountAction} {past : List (Accounts × AccountAction)}

/-! ## The statement -/

/-- The conditions on a step: a call that looks at passwords begins when the others have ended, and what `bcrypt.hash` returns is a hash
of its password. -/
structure InTurn (crypto : Crypto) (cfg : AuthServiceConfig) (s : Accounts) (a : AccountAction) : Prop where
  alone : ∀ r, a = .call r → r.ofPassword = true → ∀ t ∈ s.tasks, t.ofPassword = true → t.ended crypto cfg = true
  hashed : ∀ i ch t password, a = .exec i ch → s.tasks[i]? = some t → t.hashing = some password → HashOf crypto ch.text password

/-- The password set last for the account of an e-mail, where there is one. -/
def passwordOfEmail (crypto : Crypto) (s : Accounts) (past : List (Accounts × AccountAction)) (email : String) : Option String :=
  (UserRepository.findByEmail s.store.users email).bind (fun user => latestPassword crypto user.id past)

/-- The password set last for the account of a user, where there is one. -/
def passwordOfUser (crypto : Crypto) (s : Accounts) (past : List (Accounts × AccountAction)) (u : Uuid) : Option String :=
  (UserRepository.findById s.store.users u).bind (fun user => latestPassword crypto user.id past)

/-- Only the exact password is accepted, for the passwords set and presented of which `holds` says so. -/
structure PasswordsExact (crypto : Crypto) (cfg : AuthServiceConfig) (holds : Option String → String → Prop) : Prop where
  /-- Once a `login` has ended: it has succeeded exactly when its password is the one set last. -/
  login : ∀ s past email password s₁ s' p, (accounts crypto cfg).withPast.Reach (Lts.onSteps (InTurn crypto cfg)) (s, past) →
    InTurn crypto cfg s (.call (.login email password)) → (accounts crypto cfg).step s (.call (.login email password)) = some s₁ →
    (accounts crypto cfg).Steps (InTurn crypto cfg) s₁ s' → s'.tasks[s.tasks.length]? = some (.login email password p) →
    (AccountTask.login email password p).ended crypto cfg = true →
    (((∃ session, p = .returned session) ↔ passwordOfEmail crypto s past email = some password) ↔
      holds (passwordOfEmail crypto s past email) password)
  /-- So for a `changePassword` and its current password. -/
  change : ∀ s past u current new s₁ s' p, (accounts crypto cfg).withPast.Reach (Lts.onSteps (InTurn crypto cfg)) (s, past) →
    InTurn crypto cfg s (.call (.changePassword u current new)) →
    (accounts crypto cfg).step s (.call (.changePassword u current new)) = some s₁ →
    (accounts crypto cfg).Steps (InTurn crypto cfg) s₁ s' → s'.tasks[s.tasks.length]? = some (.changePassword u current new p) →
    (AccountTask.changePassword u current new p).ended crypto cfg = true →
    ((p = .returned ↔ passwordOfUser crypto s past u = some current) ↔ holds (passwordOfUser crypto s past u) current)
  /-- A call of a `changePassword` changes nothing, or the hash of its user and the time of the update. -/
  only : ∀ s s' (i : Nat) ch u current new p, (accounts crypto cfg).Reach (InTurn crypto cfg) s →
    s.tasks[i]? = some (.changePassword u current new p) → (accounts crypto cfg).step s (.exec i ch) = some s' →
    s'.store = s.store ∨ ∃ passwordHash, p = .updatePassword passwordHash ∧
      s'.store = { s.store with users := UserRepository.updatePassword s.store.users s.store.now u passwordHash }
  /-- The calls come to an end. -/
  ends : ∀ s (i : Nat) t, (accounts crypto cfg).Reach (InTurn crypto cfg) s → s.tasks[i]? = some t → t.ofPassword = true →
    ∃ s' t', (accounts crypto cfg).Steps (Alone i) s s' ∧ s'.tasks[i]? = some t' ∧ t'.ended crypto cfg = true

/-- The password set last is the one presented, or `bcryptjs` tells the two apart. -/
def ToldApart (latest : Option String) (password : String) : Prop :=
  ∀ q, latest = some q → bcryptBytes password = bcryptBytes q → password = q

/-! ## The hashes of the passwords -/

/-- Every row has a hash of the password set last for its user, and a call is about to write a hash of its own password. -/
structure PasswordsStored (crypto : Crypto) (s : Accounts) (past : List (Accounts × AccountAction)) : Prop where
  stored : ∀ user ∈ s.store.users, ∃ password, latestPassword crypto user.id past = some password ∧
    HashOf crypto user.passwordHash password
  writing : ∀ t ∈ s.tasks, ∀ passwordHash password, t.writing = some (passwordHash, password) → HashOf crypto passwordHash password

/-- A step that sets no password leaves the passwords as they are. -/
theorem latestPassword_unset (u : Uuid) (h : passwordSet crypto s a = none) :
    latestPassword crypto u ((s, a) :: past) = latestPassword crypto u past := by
  simp only [latestPassword, h]

/-- A step that sets one sets it for its user only. -/
theorem latestPassword_set {v : Uuid} {password : String} (u : Uuid) (h : passwordSet crypto s a = some (v, password)) :
    latestPassword crypto u ((s, a) :: past) = if v = u then some password else latestPassword crypto u past := by
  simp only [latestPassword, h]

/-- A call that writes no hash sets no password. -/
theorem passwordSet_none {i : Nat} {ch : AccountChoice} {t : AccountTask} {aw : AccountAwait AccountTask} (ht : s.tasks[i]? = some t)
    (hn : t.next crypto cfg s.store.now ch.random = some aw) (hw : aw.call.setsPassword = false) :
    passwordSet crypto s (.exec i ch) = none := by
  simp only [passwordSet, ht]
  split
  · rename_i heq
    cases heq
    cases hn
    cases hw
  · rename_i heq
    cases heq
    cases hn
    cases hw
  · rfl

/-- A user of the one table has the credentials of one of the other. -/
theorem mem_of_credentials {users users' : Table User.id} (h : credentials users' = credentials users) {user : User}
    (hmem : user ∈ users') : ∃ old ∈ users, old.id = user.id ∧ old.email = user.email ∧ old.passwordHash = user.passwordHash := by
  have hcred : user.credential ∈ credentials users' := List.mem_map_of_mem hmem
  rw [h] at hcred
  obtain ⟨old, hold, he⟩ := List.mem_map.1 hcred
  simp only [User.credential, Prod.mk.injEq] at he
  exact ⟨old, hold, he⟩

/-- The rows a call leaves have hashes of the passwords set last. -/
theorem stored_exec {i : Nat} {ch : AccountChoice} {t : AccountTask} {aw : AccountAwait AccountTask} (ht : s.tasks[i]? = some t)
    (hn : t.next crypto cfg s.store.now ch.random = some aw) (hI : PasswordsStored crypto s past) :
    ∀ user ∈ (aw.call.exec crypto ch s.store).2.users, ∃ password,
      latestPassword crypto user.id ((s, .exec i ch) :: past) = some password ∧ HashOf crypto user.passwordHash password := by
  intro user hmem
  cases hw : aw.call.setsPassword with
  | false =>
    obtain ⟨old, hold, hid, -, hhash⟩ := mem_of_credentials (credentials_exec ch s.store hw) hmem
    rw [latestPassword_unset _ (passwordSet_none ht hn hw), ← hid, ← hhash]
    exact hI.stored old hold
  | true =>
    rcases writing_of_sets hn hw with ⟨email, password, passwordHash, rfl⟩ | ⟨u, current, password, passwordHash, rfl⟩
    · have hhash : HashOf crypto passwordHash password := hI.writing _ (List.mem_of_getElem? ht) _ _ rfl
      cases hn
      have hmem : user ∈ ((AccountCall.createUser email passwordHash).exec crypto ch s.store).2.users := hmem
      rcases @exec_createUser crypto ch s.store email passwordHash with he | ⟨users, he, hcreate, -⟩
      · have hset : passwordSet crypto s (.exec i ch) = none := by
          simp only [passwordSet, ht, he]
        rw [he] at hmem
        rw [latestPassword_unset _ hset]
        exact hI.stored user hmem
      · have hset : passwordSet crypto s (.exec i ch) = some (ch.id, password) := by
          simp only [passwordSet, ht, he]
          rfl
        obtain ⟨-, hins, -⟩ := insert_of_create hcreate
        rw [he] at hmem
        rw [latestPassword_set _ hset]
        rcases (Table.insert_eq_some hins user).1 hmem with hold | rfl
        · have hne : ch.id ≠ user.id := Ne.symm (Table.insert_key_ne hins user hold)
          rw [if_neg hne]
          exact hI.stored user hold
        · exact ⟨password, if_pos rfl, hhash⟩
    · have hhash : HashOf crypto passwordHash password := hI.writing _ (List.mem_of_getElem? ht) _ _ rfl
      have hset : passwordSet crypto s (.exec i ch) = some (u, password) := by
        simp only [passwordSet, ht]
      cases hn
      obtain ⟨old, hold, rfl⟩ := List.mem_map.1 hmem
      rw [latestPassword_set _ hset]
      by_cases hid : old.id = u
      · simp only [hid, decide_true, if_true]
        exact ⟨password, rfl, hhash⟩
      · simp only [hid, decide_false, Bool.false_eq_true, if_false, Ne.symm hid]
        exact hI.stored old hold

/-- One step. -/
theorem passwordsStored_step (hok : InTurn crypto cfg s a) (h : (accounts crypto cfg).step s a = some s')
    (hI : PasswordsStored crypto s past) : PasswordsStored crypto s' ((s, a) :: past) := by
  cases Accounts.moves h with
  | call r possible =>
    refine ⟨fun user hmem => ?_, fun t ht passwordHash password hw => ?_⟩
    · rw [latestPassword_unset _ rfl]
      exact hI.stored user hmem
    · rcases List.mem_append.1 ht with ht | ht
      · exact hI.writing t ht passwordHash password hw
      · rw [List.mem_singleton.1 ht, writing_task] at hw
        cases hw
  | tick ms =>
    refine ⟨fun user hmem => ?_, hI.writing⟩
    rw [latestPassword_unset _ rfl]
    exact hI.stored user hmem
  | exec i ch t aw ht hn =>
    refine ⟨stored_exec ht hn hI, fun t' ht' passwordHash password hw => ?_⟩
    rcases List.mem_or_eq_of_mem_set ht' with hold | rfl
    · exact hI.writing t' hold passwordHash password hw
    · obtain ⟨hhashing, rfl⟩ := hashing_of_writing hn hw
      exact hok.hashed i ch t password rfl ht hhashing

/-- In every run whose calls take turns. -/
theorem passwordsStored (h : (accounts crypto cfg).withPast.Reach (Lts.onSteps (InTurn crypto cfg)) (s, past)) :
    PasswordsStored crypto s past := by
  refine h.invariant_past (I := PasswordsStored crypto) ?_ (fun s past a s' _ hI hok hs => passwordsStored_step hok hs hI)
  rintro s rfl
  refine ⟨fun user hmem => absurd hmem (Table.not_mem_empty user), fun t ht => ?_⟩
  cases ht

/-- In every run no account has an e-mail with a NUL. -/
theorem emails_plain {ok : Accounts → AccountAction → Prop} (h : (accounts crypto cfg).Reach ok s) :
    ∀ user ∈ s.store.users, nul ∉ user.email.toList := by
  refine h.invariant (I := fun s => ∀ user ∈ s.store.users, nul ∉ user.email.toList) ?_ (fun s a s' _ hI _ hs => ?_)
  · rintro s rfl user hmem
    exact absurd hmem (Table.not_mem_empty user)
  · cases Accounts.moves hs with
    | call | tick => exact hI
    | exec i ch t aw ht hn => exact emails_exec hI ch aw.call

/-! ## A call in its turn -/

/-- The call that is watched is at a stage it may be at, and until it has ended it is the only one of its kind, and the credentials are
what they were. -/
def Watched (crypto : Crypto) (cfg : AuthServiceConfig) (n : Nat) (before : List (Uuid × String × String)) (stage : AccountTask → Prop)
    (s : Accounts) : Prop :=
  ∃ t, s.tasks[n]? = some t ∧ t.ofPassword = true ∧ stage t ∧ (t.ended crypto cfg = false → credentials s.store.users = before ∧
    ∀ (j : Nat) t', j ≠ n → s.tasks[j]? = some t' → t'.ofPassword = true → t'.ended crypto cfg = true)

/-- A call of the watched task leads to a stage, and writes a hash only when the task ends with it. -/
def StageKept (crypto : Crypto) (cfg : AuthServiceConfig) (before : List (Uuid × String × String)) (stage : AccountTask → Prop) : Prop :=
  ∀ t aw (a : AccountStore) (ch : AccountChoice), stage t → credentials a.users = before → t.next crypto cfg a.now ch.random = some aw →
    stage (aw.resume (aw.call.exec crypto ch a).1) ∧
      (aw.call.setsPassword = false ∨ (aw.resume (aw.call.exec crypto ch a).1).ended crypto cfg = true)

variable {n : Nat} {before : List (Uuid × String × String)} {stage : AccountTask → Prop}

/-- A task that is asked for its next call has not ended. -/
theorem not_ended_of_next {t : AccountTask} {aw : AccountAwait AccountTask} {now : Time} {random : BitVec 192}
    (hn : t.next crypto cfg now random = some aw) : t.ended crypto cfg = false := by
  rw [Bool.eq_false_iff]
  intro hended
  rw [next_of_ended hended] at hn
  cases hn

/-- One step. -/
theorem watched_step (hkept : StageKept crypto cfg before stage) (hok : InTurn crypto cfg s a)
    (h : (accounts crypto cfg).step s a = some s') (hI : Watched crypto cfg n before stage s) : Watched crypto cfg n before stage s' := by
  obtain ⟨t, ht, hkind, hstage, hturn⟩ := hI
  have hlt := (List.getElem?_eq_some_iff.1 ht).1
  cases Accounts.moves h with
  | call r possible =>
    refine ⟨t, (List.getElem?_append_left hlt).trans ht, hkind, hstage, fun hgoing => ⟨(hturn hgoing).1, fun j t' hj ht' hkind' => ?_⟩⟩
    by_cases hold : j < s.tasks.length
    · exact (hturn hgoing).2 j t' hj ((List.getElem?_append_left hold).symm.trans ht') hkind'
    -- a call that looks at passwords does not begin while the watched one goes on
    · rw [Accounts.start, List.getElem?_append_right (by omega)] at ht'
      rw [List.mem_singleton.1 (List.mem_of_getElem? ht'), ofPassword_task] at hkind'
      rw [hok.alone r rfl hkind' t (List.mem_of_getElem? ht) hkind] at hgoing
      cases hgoing
  | tick ms => exact ⟨t, ht, hkind, hstage, hturn⟩
  | exec i ch t₀ aw ht₀ hn =>
    by_cases hi : i = n
    · subst hi
      cases ht.symm.trans ht₀
      obtain ⟨hbefore, hothers⟩ := hturn (not_ended_of_next hn)
      obtain ⟨hstage', hset⟩ := hkept t aw s.store ch hstage hbefore hn
      refine ⟨_, resume_self aw ch ht, (ofPassword_next hn _).trans hkind, hstage', fun hgoing => ⟨?_, fun j t' hj ht' => ?_⟩⟩
      · rcases hset with hset | hended
        · exact (credentials_exec ch s.store hset).trans hbefore
        · rw [hended] at hgoing
          cases hgoing
      · exact hothers j t' hj ((List.getElem?_set_ne (Ne.symm hj)).symm.trans ht')
    · refine ⟨t, (List.getElem?_set_ne hi).trans ht, hkind, hstage, fun hgoing => ?_⟩
      obtain ⟨hbefore, hothers⟩ := hturn hgoing
      have hother : t₀.ofPassword = false := by
        rw [Bool.eq_false_iff]
        intro hkind₀
        rw [next_of_ended (hothers i t₀ hi ht₀ hkind₀)] at hn
        cases hn
      have hset : aw.call.setsPassword = false := by
        rw [Bool.eq_false_iff]
        intro hw
        rcases writing_of_sets hn hw with ⟨_, _, _, rfl⟩ | ⟨_, _, _, _, rfl⟩ <;> cases hother
      refine ⟨(credentials_exec ch s.store hset).trans hbefore, fun j t' hj ht' hkind' => ?_⟩
      by_cases hji : i = j
      · subst hji
        cases (resume_self aw ch ht₀).symm.trans ht'
        rw [ofPassword_next hn, hother] at hkind'
        cases hkind'
      · exact hothers j t' hj ((List.getElem?_set_ne hji).symm.trans ht') hkind'

/-- A call begins in its turn. -/
theorem watched_start {r : AccountRequest} (hok : InTurn crypto cfg s (.call r)) (hkind : r.ofPassword = true)
    (hstage : stage (r.task crypto s.store.now)) (h : (accounts crypto cfg).step s (.call r) = some s') :
    Watched crypto cfg s.tasks.length (credentials s.store.users) stage s' := by
  cases Accounts.moves h with
  | call _ possible =>
    refine ⟨_, List.getElem?_concat_length, (ofPassword_task _ r).trans hkind, hstage, fun _ => ⟨rfl, fun j t' hj ht' hkind' => ?_⟩⟩
    have hlt : j < (s.start crypto r).tasks.length := (List.getElem?_eq_some_iff.1 ht').1
    rw [Accounts.start, List.length_append, List.length_singleton] at hlt
    rw [Accounts.start, List.getElem?_append_left (by omega)] at ht'
    exact hok.alone r rfl hkind t' (List.mem_of_getElem? ht') hkind'

/-- It ends at a stage it may be at. -/
theorem watched_end (hkept : StageKept crypto cfg before stage) (h : (accounts crypto cfg).Steps (InTurn crypto cfg) s s')
    (hI : Watched crypto cfg n before stage s) {t : AccountTask} (ht : s'.tasks[n]? = some t) : stage t := by
  obtain ⟨t', ht', -, hstage, -⟩ := h.induct (Watched crypto cfg n before stage) hI
    (fun s a s' hI hok hs => watched_step hkept hok hs hI)
  cases ht.symm.trans ht'
  exact hstage

/-! ## The stages of the two calls -/

/-- The password passes for the credentials found. -/
def Accepted (crypto : Crypto) (found : Option (Uuid × String × String)) (password : String) : Prop :=
  ∃ x, found = some x ∧ crypto.compare password x.2.2 = true

/-- Where a `login` may be that looks for its e-mail among credentials where `found` is found. -/
inductive LoginStage (crypto : Crypto) (found : Option (Uuid × String × String)) (email password : String) : AccountTask → Prop where
  | findByEmail : LoginStage crypto found email password (.login email password .findByEmail)
  | compare (user : User) (h : found = some user.credential) : LoginStage crypto found email password (.login email password (.compare user))
  | accepts (session : Session) (h : Accepted crypto found password) :
      LoginStage crypto found email password (.login email password (.setRefreshTokenHash session))
  | returned (session : Session) (h : Accepted crypto found password) :
      LoginStage crypto found email password (.login email password (.returned session))
  | threw (e : Err) (h : ¬ Accepted crypto found password) : LoginStage crypto found email password (.login email password (.threw e))

/-- Where a `changePassword` may be. -/
inductive ChangeStage (crypto : Crypto) (found : Option (Uuid × String × String)) (u : Uuid) (current new : String) :
    AccountTask → Prop where
  | findById : ChangeStage crypto found u current new (.changePassword u current new .findById)
  | compare (user : User) (h : found = some user.credential) :
      ChangeStage crypto found u current new (.changePassword u current new (.compare user))
  | hash (h : Accepted crypto found current) : ChangeStage crypto found u current new (.changePassword u current new .hash)
  | updates (passwordHash : String) (h : Accepted crypto found current) :
      ChangeStage crypto found u current new (.changePassword u current new (.updatePassword passwordHash))
  | returned (h : Accepted crypto found current) : ChangeStage crypto found u current new (.changePassword u current new .returned)
  | threw (e : Err) (h : ¬ Accepted crypto found current) :
      ChangeStage crypto found u current new (.changePassword u current new (.threw e))

/-- Nothing passes where nothing is found. -/
theorem not_accepted_none (password : String) : ¬ Accepted crypto none password := by
  rintro ⟨x, hx, -⟩
  cases hx

/-- Where a user is found, the comparison says whether the password passes. -/
theorem accepted_some {user : User} (password : String) :
    Accepted crypto (some user.credential) password ↔ crypto.compare password user.passwordHash = true := by
  constructor
  · rintro ⟨x, hx, h⟩
    cases hx
    exact h
  · exact fun h => ⟨_, rfl, h⟩

/-- A `login` goes from stage to stage. An e-mail with a NUL, of which no account is, is refused. -/
theorem loginStage_kept (email password : String) (hplain : ∀ x ∈ before, nul ∉ x.2.1.toList) :
    StageKept crypto cfg before (LoginStage crypto (before.find? (fun x => x.2.1 = email)) email password) := by
  intro t aw a ch hstage hbefore hn
  have hfind := credential_findByEmail a.users email
  rw [hbefore] at hfind
  cases hstage with
  | findByEmail =>
    cases hn
    refine ⟨?_, Or.inl rfl⟩
    dsimp only [AccountAwait.map, AccountCall.exec]
    by_cases hnul : nul ∈ email.toList
    · have hnone : before.find? (fun x => x.2.1 = email) = none := by
        rw [List.find?_eq_none]
        intro x hx he
        exact hplain x hx (of_decide_eq_true he ▸ hnul)
      rw [if_pos hnul, hnone]
      exact .threw _ (not_accepted_none password)
    rw [if_neg hnul, ← hfind]
    cases UserRepository.findByEmail a.users email with
    | none => exact .threw _ (not_accepted_none password)
    | some user => exact .compare user rfl
  | compare user h =>
    cases hn
    refine ⟨?_, Or.inl rfl⟩
    dsimp only [AccountAwait.map, AccountCall.exec]
    rw [h]
    split
    · rename_i hvalid
      exact .accepts _ ((accepted_some password).2 hvalid)
    · rename_i hvalid
      exact .threw _ (fun hpass => hvalid ((accepted_some password).1 hpass))
  | accepts session h =>
    cases hn
    exact ⟨.returned session h, Or.inl rfl⟩
  | returned | threw => cases hn

/-- So does a `changePassword`. -/
theorem changeStage_kept (u : Uuid) (current new : String) :
    StageKept crypto cfg before (ChangeStage crypto (before.find? (fun x => x.1 = u)) u current new) := by
  intro t aw a ch hstage hbefore hn
  have hfind := credential_findById a.users u
  rw [hbefore] at hfind
  cases hstage with
  | findById =>
    cases hn
    refine ⟨?_, Or.inl rfl⟩
    dsimp only [AccountAwait.map, AccountCall.exec]
    rw [← hfind]
    cases UserRepository.findById a.users u with
    | none => exact .threw _ (not_accepted_none current)
    | some user => exact .compare user rfl
  | compare user h =>
    cases hn
    refine ⟨?_, Or.inl rfl⟩
    dsimp only [AccountAwait.map, AccountCall.exec]
    rw [h]
    split
    · rename_i hvalid
      exact .hash ((accepted_some current).2 hvalid)
    · rename_i hvalid
      exact .threw _ (fun hpass => hvalid ((accepted_some current).1 hpass))
  | hash h =>
    cases hn
    exact ⟨.updates ch.text h, Or.inl rfl⟩
  | updates passwordHash h =>
    cases hn
    exact ⟨.returned h, Or.inr rfl⟩
  | returned | threw => cases hn

/-! ## The main result -/

/-- A password passes for a user found when it begins like the password set last for that user. -/
theorem accepted_iff (hI : PasswordsStored crypto s past) (found : Option User) (hmem : ∀ user ∈ found, user ∈ s.store.users)
    (password : String) : Accepted crypto (found.map User.credential) password ↔
      ∃ q, found.bind (fun user => latestPassword crypto user.id past) = some q ∧ bcryptBytes password = bcryptBytes q := by
  cases found with
  | none => simp [Accepted]
  | some user =>
    obtain ⟨q, hlatest, hhash⟩ := hI.stored user (hmem user rfl)
    rw [Option.map_some, accepted_some, hhash password]
    simp [hlatest]

/-- To accept what begins alike is to accept the password itself only, where the two are told apart. -/
theorem exact_iff (latest : Option String) (password : String) :
    ((∃ q, latest = some q ∧ bcryptBytes password = bcryptBytes q) ↔ latest = some password) ↔ ToldApart latest password := by
  constructor
  · intro h q hq hbytes
    have hlatest := h.1 ⟨q, hq, hbytes⟩
    rw [hq] at hlatest
    exact (Option.some.inj hlatest).symm
  · intro h
    constructor
    · rintro ⟨q, hq, hbytes⟩
      rw [h q hq hbytes]
      exact hq
    · exact fun hlatest => ⟨password, hlatest, rfl⟩

/-- A `login` succeeds, and a `changePassword`, exactly when the password set last is presented, if and only if `bcryptjs` tells the
password set last from the one presented. -/
theorem passwords_told_apart (crypto : Crypto) (cfg : AuthServiceConfig) : PasswordsExact crypto cfg ToldApart where
  login := by
    intro s past email password s₁ s' p hr hok hcall hsteps hp hended
    have hplain : ∀ x ∈ credentials s.store.users, nul ∉ x.2.1.toList := by
      intro x hx
      obtain ⟨user, hmem, rfl⟩ := List.mem_map.1 hx
      exact emails_plain hr.of_past user hmem
    have hstage := watched_end (loginStage_kept email password hplain) hsteps (watched_start hok rfl .findByEmail hcall) hp
    rw [← credential_findByEmail] at hstage
    have haccepted := accepted_iff (passwordsStored hr) (UserRepository.findByEmail s.store.users email)
      (fun user hfound => (Table.mem_select.1 (List.mem_of_mem_head? hfound)).1) password
    have hsuccess : (∃ session, p = .returned session) ↔
        Accepted crypto ((UserRepository.findByEmail s.store.users email).map User.credential) password := by
      cases hstage with
      | findByEmail | compare | accepts => cases hended
      | returned session h => exact ⟨fun _ => h, fun _ => ⟨session, rfl⟩⟩
      | threw e h => exact ⟨fun ⟨_, he⟩ => (nomatch he), fun h' => absurd h' h⟩
    rw [hsuccess, haccepted]
    exact exact_iff _ password
  change := by
    intro s past u current new s₁ s' p hr hok hcall hsteps hp hended
    have hstage := watched_end (changeStage_kept u current new) hsteps (watched_start hok rfl .findById hcall) hp
    rw [← credential_findById] at hstage
    have haccepted := accepted_iff (passwordsStored hr) (UserRepository.findById s.store.users u)
      (fun user hfound => (Table.mem_select.1 (List.mem_of_mem_head? hfound)).1) current
    have hsuccess : p = .returned ↔
        Accepted crypto ((UserRepository.findById s.store.users u).map User.credential) current := by
      cases hstage with
      | findById | compare | hash | updates => cases hended
      | returned h => exact ⟨fun _ => h, fun _ => rfl⟩
      | threw e h => exact ⟨fun he => (nomatch he), fun h' => absurd h' h⟩
    rw [hsuccess, haccepted]
    exact exact_iff _ current
  only := by
    intro s s' i ch u current new p hr hi hs
    cases Accounts.moves hs with
    | exec _ _ t aw ht hn =>
      cases hi.symm.trans ht
      obtain ⟨aw, hp, rfl⟩ := Option.map_eq_some_iff.1 hn
      cases p with
      | updatePassword passwordHash =>
        cases hp
        exact Or.inr ⟨passwordHash, rfl, rfl⟩
      | findById | compare | hash =>
        cases hp
        exact Or.inl rfl
      | returned | threw => cases hp
  ends := fun s i t _ hi hkind => password_ends cfg hi hkind

/-! ## A long password -/

/-- A `bcryptjs` whose hash of a password is the password. -/
def Trace.bcrypt : Crypto := { Trace.crypto with compare := fun password passwordHash => bcryptBytes password = bcryptBytes passwordHash }

/-- A password of 73 characters, of which `bcryptjs` does not read the last. -/
def longPassword (last : Char) : String := String.ofList (List.replicate 72 'a' ++ [last])

/-- The step takes its turn, and a hash is the password. -/
def takesTurn (s : Accounts) : AccountAction → Bool
  | .call r => !r.ofPassword || s.tasks.all (fun t => !t.ofPassword || t.ended Trace.bcrypt Trace.ttl)
  | .exec i ch => ((s.tasks[i]?).bind AccountTask.hashing).all (fun password => ch.text = password)
  | .tick _ => true

theorem inTurn_of_takesTurn (h : takesTurn s a = true) : InTurn Trace.bcrypt Trace.ttl s a where
  alone := by
    rintro r rfl hkind t ht hkind'
    simp only [takesTurn, hkind, Bool.not_true, Bool.false_or, List.all_eq_true, Bool.or_eq_true, Bool.not_eq_true'] at h
    rcases h t ht with hno | hended
    · rw [hkind'] at hno
      cases hno
    · exact hended
  hashed := by
    rintro i ch t password rfl ht hhashing p
    simp only [takesTurn, ht, Option.bind_some, hhashing, Option.all_some, decide_eq_true_eq] at h
    rw [h]
    exact decide_eq_true_iff

/-- A user registers with a password of 73 characters. -/
def registersLong : List AccountAction :=
  [.call (.register "a@b.c" (longPassword 'b')), Trace.query 0 0, .exec 0 ⟨Trace.uuid 0, longPassword 'b', 0, []⟩, Trace.query 0 1,
    Trace.query 0 0]

/-- The `login` has succeeded. -/
def signedIn (s : Accounts) (n : Nat) (email password : String) : Bool :=
  match s.tasks[n]? with
  | some (.login email' password' (.returned _)) => email' = email && password' = password
  | _ => false

/-- Another password of 73 characters signs in. -/
theorem long_password_accepted : ¬ PasswordsExact Trace.bcrypt Trace.ttl (fun _ _ => True) := by
  intro h
  have hrun : (((accounts Trace.bcrypt Trace.ttl).withPast.when (fun p => takesTurn p.1)).run (Accounts.empty, []) registersLong).any
      (fun p => decide (passwordOfEmail Trace.bcrypt p.1 p.2 "a@b.c" = some (longPassword 'b')) &&
        takesTurn p.1 (.call (.login "a@b.c" (longPassword 'c'))) &&
        ((accounts Trace.bcrypt Trace.ttl).step p.1 (.call (.login "a@b.c" (longPassword 'c')))).any (fun s₁ =>
          (((accounts Trace.bcrypt Trace.ttl).when takesTurn).run s₁ [Trace.query 1 0, Trace.query 1 0, Trace.query 1 0]).any (fun s' =>
            signedIn s' p.1.tasks.length "a@b.c" (longPassword 'c')))) = true := by
    decide
  obtain ⟨⟨s, past⟩, hsteps, htest⟩ := Lts.steps_of_when hrun
  simp only [Bool.and_eq_true, decide_eq_true_eq] at htest
  obtain ⟨⟨hlatest, hturn⟩, hlogin⟩ := htest
  obtain ⟨s₁, hcall, hlogin⟩ := (Option.any_eq_true _ _).1 hlogin
  obtain ⟨s', hsteps', hsigned⟩ := Lts.steps_of_when hlogin
  unfold signedIn at hsigned
  split at hsigned
  · rename_i email password session ht
    simp only [Bool.and_eq_true, decide_eq_true_eq] at hsigned
    obtain ⟨rfl, rfl⟩ := hsigned
    have hr : (accounts Trace.bcrypt Trace.ttl).withPast.Reach (Lts.onSteps (InTurn Trace.bcrypt Trace.ttl)) (s, past) :=
      ⟨(Accounts.empty, []), ⟨rfl, rfl⟩, hsteps.mono (fun _ _ => inTurn_of_takesTurn)⟩
    have hexact := (h.login s past "a@b.c" (longPassword 'c') s₁ s' _ hr (inTurn_of_takesTurn hturn) hcall
      (hsteps'.mono (fun _ _ => inTurn_of_takesTurn)) ht rfl).2 trivial
    have hset := hexact.1 ⟨session, rfl⟩
    rw [hlatest] at hset
    exact absurd (Option.some.inj hset) (by decide)
  · cases hsigned

end FileProcessing
