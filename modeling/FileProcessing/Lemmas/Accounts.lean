import FileProcessing.Accounts

/-!
# What a step of the accounts does

The three kinds of steps, and what one repository call does to the two tables: which calls write a refresh token hash, that a
user's row stays, and which calls touch `api_keys`.
-/

namespace FileProcessing

open AuthService ApiKeyService

variable {crypto : Crypto} {cfg : AuthServiceConfig} {s s' : Accounts}

/-! ## Steps -/

/-- The state once task `i`, which was `t`, has made the call of `aw`. -/
def Accounts.resume (crypto : Crypto) (s : Accounts) (i : Nat) (t : AccountTask) (aw : AccountAwait AccountTask)
    (ch : AccountChoice) : Accounts where
  store := (aw.call.exec crypto ch s.store).2
  tasks := s.tasks.set i (aw.resume (aw.call.exec crypto ch s.store).1)
  log := t.logged ++ s.log

/-- The state once a call has started. -/
def Accounts.start (crypto : Crypto) (s : Accounts) (r : AccountRequest) : Accounts :=
  { s with tasks := s.tasks ++ [r.task crypto s.store.now], log := r.logged crypto s.store.now ++ s.log }

/-- The steps there are. -/
inductive Accounts.Moves (crypto : Crypto) (cfg : AuthServiceConfig) (s : Accounts) : AccountAction → Accounts → Prop where
  | call (r : AccountRequest) (possible : r.Possible crypto s.store.now s.log) : Moves crypto cfg s (.call r) (s.start crypto r)
  | exec (i : Nat) (ch : AccountChoice) (t : AccountTask) (aw : AccountAwait AccountTask) (at_ : s.tasks[i]? = some t)
      (next : t.next crypto cfg s.store.now ch.random = some aw) : Moves crypto cfg s (.exec i ch) (s.resume crypto i t aw ch)
  | tick (ms : Nat) : Moves crypto cfg s (.tick ms) { s with store := { s.store with now := s.store.now + ms } }

/-- Every step is one of them. -/
theorem Accounts.moves {a : AccountAction} (h : (accounts crypto cfg).step s a = some s') : s.Moves crypto cfg a s' := by
  simp only [accounts, Accounts.step] at h
  cases a with
  | call r =>
    dsimp only at h
    split at h
    · rename_i hp
      cases h
      exact .call r hp
    · cases h
  | exec i ch =>
    dsimp only at h
    split at h
    · cases h
    rename_i t ht
    split at h
    · cases h
    rename_i aw hn
    cases h
    exact .exec i ch t aw ht hn
  | tick ms =>
    cases h
    exact .tick ms

/-- Only call `i` goes on. -/
def Alone (i : Nat) (_ : Accounts) (a : AccountAction) : Prop := ∃ ch, a = .exec i ch

/-- A task that has a call to make can make it. -/
theorem exec_resumes {i : Nat} {t : AccountTask} {aw : AccountAwait AccountTask} {ch : AccountChoice} (ht : s.tasks[i]? = some t)
    (hn : t.next crypto cfg s.store.now ch.random = some aw) :
    (accounts crypto cfg).step s (.exec i ch) = some (s.resume crypto i t aw ch) := by
  simp only [accounts, Accounts.step, ht, hn]
  rfl

/-- It then is what the reply makes of it. -/
theorem resume_self {i : Nat} {t : AccountTask} (aw : AccountAwait AccountTask) (ch : AccountChoice) (ht : s.tasks[i]? = some t) :
    (s.resume crypto i t aw ch).tasks[i]? = some (aw.resume (aw.call.exec crypto ch s.store).1) :=
  List.getElem?_set_self (List.getElem?_eq_some_iff.1 ht).1

/-! ## The users -/

/-- An update that keeps the ids is seen in the row found. -/
theorem findById_update {users : Table User.id} {p : User → Bool} {f : User → User} {hf : ∀ user, (f user).id = user.id} (u : Uuid) :
    UserRepository.findById (users.update p f hf) u =
      (UserRepository.findById users u).map (fun user => if p user then f user else user) := by
  have hid : ((fun user => decide (user.id = u)) ∘ fun user => if p user then f user else user) =
      fun user : User => decide (user.id = u) := by
    funext user
    simp only [Function.comp_apply]
    split
    · rw [hf]
    · rfl
  unfold UserRepository.findById Table.select Table.update
  rw [List.head?_filter, List.head?_filter, List.find?_map, hid]

/-- Nothing is found under the id of a row that can be inserted. -/
theorem findById_before_insert {users users' : Table User.id} {row : User} (h : users.insert row = some users') :
    UserRepository.findById users row.id = none := by
  unfold UserRepository.findById Table.select
  rw [List.head?_filter, List.find?_eq_none]
  intro user hmem he
  exact Table.insert_key_ne h user hmem (by simpa using he)

/-- A row inserted is the one found under its id, and under no other. -/
theorem findById_insert {users users' : Table User.id} {row : User} (h : users.insert row = some users') (u : Uuid) :
    UserRepository.findById users' u = if row.id = u then some row else UserRepository.findById users u := by
  have hbefore := findById_before_insert h
  unfold UserRepository.findById Table.select at hbefore ⊢
  rw [List.head?_filter] at hbefore
  rw [List.head?_filter, List.head?_filter, Table.rows_insert h, List.find?_append]
  by_cases hu : row.id = u
  · subst hu
    rw [hbefore, if_pos rfl]
    simp
  · rw [if_neg hu]
    simp [hu]

/-- What is found by an id has it. -/
theorem id_of_findById {users : Table User.id} {u : Uuid} {user : User} (h : UserRepository.findById users u = some user) :
    user.id = u := by
  unfold UserRepository.findById at h
  have hx := Table.mem_select.1 (List.mem_of_head? h)
  simpa using hx.2

/-- What is found by an email is found by its id. -/
theorem findById_of_email {users : Table User.id} {email : String} {user : User}
    (h : UserRepository.findByEmail users email = some user) : UserRepository.findById users user.id = some user := by
  unfold UserRepository.findByEmail at h
  have hmem := (Table.mem_select.1 (List.mem_of_head? h)).1
  unfold UserRepository.findById Table.select
  rw [List.head?_filter]
  exact Table.find?_eq_some_iff.2 ⟨hmem, rfl⟩

/-- A successful insert of an account inserts its row, whose email no row had. -/
theorem insert_of_create {users users' : Table User.id} {now : Time} {id : Uuid} {email passwordHash : String} {user : User}
    (h : UserRepository.create users now id email passwordHash = some (user, users')) :
    user = UserRepository.newRow now id email passwordHash ∧ users.insert user = some users' ∧ ∀ x ∈ users, x.email ≠ email := by
  unfold UserRepository.create at h
  split at h
  · rename_i hnew
    obtain ⟨users₁, hins, he⟩ := Option.map_eq_some_iff.1 h
    cases he
    exact ⟨rfl, hins, fun x hx hmail => hnew.2 (List.any_eq_true.2 ⟨x, hx, decide_eq_true hmail⟩)⟩
  · cases h

/-- It is one whose email the column takes. -/
theorem email_of_create {users : Table User.id} {now : Time} {id : Uuid} {email passwordHash : String} {row : User × Table User.id}
    (h : UserRepository.create users now id email passwordHash = some row) : nul ∉ email.toList := by
  unfold UserRepository.create at h
  split at h
  · rename_i hnew
    exact (varcharIn_self.1 hnew.1).1
  · cases h

/-- What a successful insert of an account makes of the table. -/
theorem findById_create {users users' : Table User.id} {now : Time} {id : Uuid} {email passwordHash : String} {user : User}
    (h : UserRepository.create users now id email passwordHash = some (user, users')) :
    user = UserRepository.newRow now id email passwordHash ∧ UserRepository.findById users id = none ∧
      ∀ u, UserRepository.findById users' u = if id = u then some user else UserRepository.findById users u := by
  obtain ⟨rfl, hins, -⟩ := insert_of_create h
  exact ⟨rfl, findById_before_insert hins, findById_insert hins⟩

/-! ## The stored hash -/

/-- The user has a row. -/
def HasUser (users : Table User.id) (u : Uuid) : Prop := (UserRepository.findById users u).isSome = true

/-- The refresh token hash stored for a user; none where there is no such user. -/
def hashOf (users : Table User.id) (u : Uuid) : Option String :=
  (UserRepository.findById users u).bind (fun user => user.refreshTokenHash)

/-- Setting the hash of a user sets it for this user. -/
theorem hashOf_set_self {users : Table User.id} {now : Time} {u : Uuid} {hash : Option String} (h : HasUser users u) :
    hashOf (UserRepository.setRefreshTokenHash users now u hash) u = hash := by
  obtain ⟨user, hu⟩ := Option.isSome_iff_exists.1 h
  unfold hashOf UserRepository.setRefreshTokenHash
  rw [findById_update, hu]
  simp [id_of_findById hu]

/-- Clearing the hash of a user clears it, whether there is such a user or not. -/
theorem hashOf_clear {users : Table User.id} {now : Time} {u : Uuid} :
    hashOf (UserRepository.setRefreshTokenHash users now u none) u = none := by
  by_cases h : HasUser users u
  · exact hashOf_set_self h
  · have hnone : UserRepository.findById users u = none := by simpa [HasUser] using h
    unfold hashOf UserRepository.setRefreshTokenHash
    rw [findById_update, hnone]
    rfl

/-- Setting the hash of a user leaves those of the others. -/
theorem hashOf_set_ne {users : Table User.id} {now : Time} {u v : Uuid} {hash : Option String} (h : u ≠ v) :
    hashOf (UserRepository.setRefreshTokenHash users now v hash) u = hashOf users u := by
  unfold hashOf UserRepository.setRefreshTokenHash
  rw [findById_update]
  cases hu : UserRepository.findById users u with
  | none => rfl
  | some user =>
    have hne : user.id ≠ v := fun he => h ((id_of_findById hu).symm.trans he)
    simp [hne]

/-- What a call writes to `refresh_token_hash`. -/
def AccountCall.writes : {α : Type} → AccountCall α → Option (Uuid × Option String)
  | _, .setRefreshTokenHash userId hash => some (userId, hash)
  | _, _ => none

/-- An insert of an account is rejected, or adds a row under an id that had none. -/
theorem exec_createUser (ch : AccountChoice) (a : AccountStore) (email passwordHash : String) :
    ((AccountCall.createUser email passwordHash).exec crypto ch a = (.error rejected, a)) ∨
    ∃ users, (AccountCall.createUser email passwordHash).exec crypto ch a =
        (.ok (UserRepository.newRow a.now ch.id email passwordHash),
          { a with users := users, issued := ch.id :: a.issued, sessions := ch.id :: a.sessions }) ∧
      UserRepository.create a.users a.now ch.id email passwordHash =
        some (UserRepository.newRow a.now ch.id email passwordHash, users) ∧ ch.id ∉ a.issued := by
  simp only [AccountCall.exec]
  split
  · exact Or.inl rfl
  rename_i hfresh
  split
  · exact Or.inl rfl
  rename_i user users hcreate
  obtain ⟨rfl, -, -⟩ := findById_create hcreate
  exact Or.inr ⟨users, rfl, hcreate, hfresh⟩

/-- An insert of a key is rejected, or adds a row under an id that is new. -/
theorem exec_createKey (ch : AccountChoice) (a : AccountStore) (data : NewApiKey) :
    (AccountCall.createKey data).exec crypto ch a = (.error rejected, a) ∨
    ∃ apiKeys, (AccountCall.createKey data).exec crypto ch a =
        (.ok (ApiKeyRepository.newRow a.now ch.id data), { a with apiKeys := apiKeys, issued := ch.id :: a.issued }) ∧
      a.apiKeys.insert (ApiKeyRepository.newRow a.now ch.id data) = some apiKeys ∧ ch.id ∉ a.issued := by
  simp only [AccountCall.exec]
  split
  · exact Or.inl rfl
  rename_i hfresh
  split
  · exact Or.inl rfl
  rename_i row apiKeys hcreate
  unfold ApiKeyRepository.create at hcreate
  split at hcreate
  · obtain ⟨apiKeys₁, hins, he⟩ := Option.map_eq_some_iff.1 hcreate
    cases he
    exact Or.inr ⟨apiKeys, rfl, hins, hfresh⟩
  · cases hcreate

/-- A call that writes no hash leaves every stored hash as it is: a new account has none. -/
theorem hashOf_exec {α : Type} {call : AccountCall α} (ch : AccountChoice) (a : AccountStore) (h : call.writes = none)
    (u : Uuid) : hashOf (call.exec crypto ch a).2.users u = hashOf a.users u := by
  cases call with
  | setRefreshTokenHash => cases h
  | createUser email passwordHash =>
    rcases exec_createUser ch a email passwordHash with he | ⟨users, he, hcreate, -⟩
    · rw [he]
    obtain ⟨-, hbefore, hfound⟩ := findById_create hcreate
    rw [he]
    unfold hashOf
    rw [hfound u]
    split
    · rename_i hid
      rw [← hid, hbefore]
      rfl
    · rfl
  | updatePassword v passwordHash =>
    simp only [AccountCall.exec, hashOf, UserRepository.updatePassword]
    rw [findById_update]
    cases UserRepository.findById a.users u with
    | none => rfl
    | some user =>
      simp only [Option.map_some, Option.bind_some]
      split <;> rfl
  | createKey data => rcases @exec_createKey crypto ch a data with he | ⟨apiKeys, he, -⟩ <;> rw [he]
  | deleteById | findByEmail | findById | bcryptHash | bcryptCompare | findByUserId | countByUserId => rfl

/-- No account gets an email with a NUL. -/
theorem emails_exec {α : Type} {a : AccountStore} (h : ∀ user ∈ a.users, nul ∉ user.email.toList) (ch : AccountChoice)
    (call : AccountCall α) : ∀ user ∈ (call.exec crypto ch a).2.users, nul ∉ user.email.toList := by
  intro user hmem
  cases call with
  | createUser email passwordHash =>
    rcases @exec_createUser crypto ch a email passwordHash with he | ⟨users, he, hcreate, -⟩
    · rw [he] at hmem
      exact h user hmem
    rw [he] at hmem
    rcases (Table.insert_eq_some (insert_of_create hcreate).2.1 user).1 hmem with hold | rfl
    · exact h user hold
    · exact email_of_create hcreate
  | setRefreshTokenHash v hash | updatePassword v passwordHash =>
    obtain ⟨old, hold, rfl⟩ := List.mem_map.1 hmem
    split <;> exact h old hold
  | createKey data =>
    rcases @exec_createKey crypto ch a data with he | ⟨apiKeys, he, -⟩ <;> rw [he] at hmem <;> exact h user hmem
  | deleteById | findByEmail | findById | bcryptHash | bcryptCompare | findByUserId | countByUserId => exact h user hmem

/-- A user who has a row keeps one. -/
theorem HasUser.exec {α : Type} {a : AccountStore} {u : Uuid} (h : HasUser a.users u) (ch : AccountChoice) (call : AccountCall α) :
    HasUser (call.exec crypto ch a).2.users u := by
  unfold HasUser at h ⊢
  cases call with
  | createUser email passwordHash =>
    rcases exec_createUser ch a email passwordHash with he | ⟨users, he, hcreate, -⟩
    · rw [he]
      exact h
    rw [he, (findById_create hcreate).2.2 u]
    split
    · rfl
    · exact h
  | setRefreshTokenHash v hash =>
    simp only [AccountCall.exec, UserRepository.setRefreshTokenHash]
    rw [findById_update, Option.isSome_map]
    exact h
  | updatePassword v passwordHash =>
    simp only [AccountCall.exec, UserRepository.updatePassword]
    rw [findById_update, Option.isSome_map]
    exact h
  | createKey data =>
    rcases @exec_createKey crypto ch a data with he | ⟨apiKeys, he, -⟩ <;> rw [he] <;> exact h
  | deleteById | findByEmail | findById | bcryptHash | bcryptCompare | findByUserId | countByUserId => exact h

end FileProcessing
