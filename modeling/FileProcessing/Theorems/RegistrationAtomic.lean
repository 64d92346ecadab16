import FileProcessing.Api.Schemas
import FileProcessing.Lemmas.Tenants

/-!
# Registrations, one by one and at once

`register` looks for the e-mail, hashes the password, inserts the row and stores the hash of the refresh token, with no transaction
around the four. The unique constraint keeps the e-mails apart in any run. The rest holds in the runs where no call looks for an e-mail
while another is between its look and its insert of that e-mail, and where the last of the four does not fail.
-/

namespace FileProcessing

open AuthService

variable {env : Env} {ok : Tenants → TenantAction → Prop} {c c' c₀ : Tenants} {a : TenantAction} {email : String}

/-! ## The statement -/

/-- Call `i` is a registration of the e-mail, at the given point. -/
def Registers (c : Tenants) (i : Nat) (email : String) (p : Register) : Prop :=
  ∃ password, c.calls[i]? = some (.register email password p)

/-- The registration has ended. -/
def RegisterEnded (p : Register) : Prop := (∃ session, p = .returned session) ∨ ∃ e, p = .threw e

/-- The registration has found the e-mail free and has not yet inserted its row. -/
def Checked (p : Register) : Prop := p = .hash ∨ ∃ passwordHash, p = .create passwordHash

/-- In the past, call `i` has inserted the row of the id. -/
def InsertedBy (env : Env) (past : List (Tenants × TenantAction)) (i : Nat) (id : Uuid) : Prop :=
  ∃ step ∈ past, ∃ ch email passwordHash user, step.2 = .exec i ch ∧ Registers step.1 i email (.create passwordHash) ∧
    ((AccountCall.createUser email passwordHash).exec env.crypto ch step.1.store).1 = .ok user ∧ user.id = id

/-- No repository call of a registration of the e-mail fails for a reason of its own: none is rejected, and the id of an insert is new. -/
structure NoFailure (email : String) (c : Tenants) (a : TenantAction) : Prop where
  rejected : ∀ i e p, a = .reject i e → ¬ Registers c i email p
  fresh : ∀ i ch passwordHash, a = .exec i ch → Registers c i email (.create passwordHash) → ch.id ∉ c.world.issued

/-- Of the registrations of the e-mail made since `c₀` one has succeeded, and the others have been told that it is taken. -/
def OneSucceeds (c₀ c : Tenants) (email : String) : Prop :=
  ∃ i, c₀.calls.length ≤ i ∧ (∃ session, Registers c i email (.returned session) ∧ session.user.email = email) ∧
    ∀ j p, c₀.calls.length ≤ j → j ≠ i → Registers c j email p →
      ∃ e, p = .threw e ∧ (errorHandler e).statusCode = 409 ∧ (errorHandler e).code = "EMAIL_TAKEN"

/-- Registration is atomic in the runs whose steps meet the condition. -/
structure RegistrationAtomic (env : Env) (ok : Tenants → TenantAction → Prop) : Prop where
  /-- There is one row for an e-mail. -/
  unique : ∀ c, (tenants env).Reach ok c → ∀ x ∈ c.world.db.users, ∀ y ∈ c.world.db.users, x.email = y.email → x = y
  /-- A registration that has thrown leaves no row of its own. -/
  clean : ∀ c past, (tenants env).withPast.Reach (Lts.onSteps ok) (c, past) → ∀ i email e, Registers c i email (.threw e) →
    ∀ id, InsertedBy env past i id → ∀ user ∈ c.world.db.users, user.id ≠ id
  /-- Of the registrations of a free e-mail, once they have ended and none has failed for a reason of its own, one has succeeded. An
  address the schema takes has no NUL. -/
  one : ∀ c₀ c email, (tenants env).Reach ok c₀ → email.length ≤ 255 → nul ∉ email.toList →
    (∀ user ∈ c₀.world.db.users, user.email ≠ email) →
    (∀ i p, Registers c₀ i email p → RegisterEnded p) →
    (tenants env).Steps (fun c a => ok c a ∧ NoFailure email c a) c₀ c →
    (∀ i p, Registers c i email p → RegisterEnded p) → (∃ i p, c₀.calls.length ≤ i ∧ Registers c i email p) → OneSucceeds c₀ c email

/-- The conditions on a step: it does not fail the last call of a registration, and a registration looks for its e-mail while no other
is between its look and its insert of that e-mail. -/
structure RegistersApart (c : Tenants) (a : TenantAction) : Prop where
  stored : ∀ i e email session, a = .reject i e → ¬ Registers c i email (.setRefreshTokenHash session)
  apart : ∀ i ch email, a = .exec i ch → Registers c i email .findByEmail → ∀ j p, Registers c j email p → ¬ Checked p

/-! ## One row for an e-mail -/

/-- In every run. -/
theorem emails_unique (h : (tenants env).Reach ok c) :
    ∀ x ∈ c.world.db.users, ∀ y ∈ c.world.db.users, x.email = y.email → x = y := by
  refine h.invariant (I := fun c => ∀ x ∈ c.world.db.users, ∀ y ∈ c.world.db.users, x.email = y.email → x = y) ?_ ?_
  · rintro c rfl x hx
    exact absurd hx (Table.not_mem_empty x)
  · intro c a c' _ hI _ hs x hx y hy he
    rcases users_step (tenants_step_cases hs) with hfaces | ⟨i, ch, email, password, hash, -, -, -, hins, hmail, -⟩
    · obtain ⟨x₀, hx₀, hxid, hxmail⟩ := SameFaces.mem (Eq.symm hfaces) hx
      obtain ⟨y₀, hy₀, hyid, hymail⟩ := SameFaces.mem (Eq.symm hfaces) hy
      have heq : x₀ = y₀ := hI x₀ hx₀ y₀ hy₀ (hxmail.trans (he.trans hymail.symm))
      exact c'.world.db.users.eq_of_key_eq hx hy (hxid.symm.trans (heq ▸ hyid))
    · rcases (Table.insert_eq_some hins x).1 hx with hx | rfl <;> rcases (Table.insert_eq_some hins y).1 hy with hy | rfl
      · exact hI x hx y hy he
      · exact absurd he (hmail x hx)
      · exact absurd he.symm (hmail y hy)
      · rfl

/-! ## What a registration does -/

/-- The error of a registration whose e-mail is taken. -/
def emailTaken : Err := conflict "EMAIL_TAKEN" "An account with this email address already exists"

/-- What a step makes of a registration. -/
inductive RegisterMoves (env : Env) (c : Tenants) (a : TenantAction) (i : Nat) (email : String) : Register → Register → Prop where
  | waits (p : Register) (hexec : ∀ ch, a ≠ .exec i ch) : RegisterMoves env c a i email p p
  | unreadable (hnul : nul ∈ email.toList) : RegisterMoves env c a i email .findByEmail (.threw rejected)
  | found (user : User) (hu : UserRepository.findByEmail c.world.db.users email = some user) :
      RegisterMoves env c a i email .findByEmail (.threw emailTaken)
  | checks (ch : AccountChoice) (ha : a = .exec i ch) (hu : UserRepository.findByEmail c.world.db.users email = none) :
      RegisterMoves env c a i email .findByEmail .hash
  | hashes (passwordHash : String) : RegisterMoves env c a i email .hash (.create passwordHash)
  | inserts (ch : AccountChoice) (ha : a = .exec i ch) (passwordHash : String) (user : User)
      (hx : ((AccountCall.createUser email passwordHash).exec env.crypto ch c.store).1 = .ok user) :
      RegisterMoves env c a i email (.create passwordHash)
        (.setRefreshTokenHash (newSession env.crypto env.auth c.world.now user))
  | refused (ch : AccountChoice) (ha : a = .exec i ch) (passwordHash : String) (e : Err)
      (hx : ((AccountCall.createUser email passwordHash).exec env.crypto ch c.store).1 = .error e) :
      RegisterMoves env c a i email (.create passwordHash) (.threw e)
  | stores (session : Session) : RegisterMoves env c a i email (.setRefreshTokenHash session) (.returned session)
  | fails (p : Register) (e : Err) (ha : a = .reject i e) (hp : ¬ RegisterEnded p) : RegisterMoves env c a i email p (.threw e)

/-- A registration stays one of its e-mail. -/
theorem register_moves {i : Nat} {password : String} {p : Register} {t' : AccountTask}
    (hm : CallMoves env c a i (.register email password p) t') :
    ∃ p', t' = .register email password p' ∧ RegisterMoves env c a i email p p' := by
  cases hm with
  | waits hexec _ => exact ⟨p, rfl, .waits p hexec⟩
  | reject e ha hn =>
    obtain ⟨aw, hp, rfl⟩ := Option.map_eq_some_iff.1 hn
    have hended : ¬ RegisterEnded p := by
      rintro (⟨session, rfl⟩ | ⟨e, rfl⟩) <;> cases hp
    refine ⟨_, rfl, ?_⟩
    cases p with
    | findByEmail | hash | create | setRefreshTokenHash =>
      cases hp
      exact .fails _ e ha hended
    | returned | threw => cases hp
  | exec ch ha hn =>
    obtain ⟨aw, hp, rfl⟩ := Option.map_eq_some_iff.1 hn
    refine ⟨_, rfl, ?_⟩
    cases p with
    | findByEmail =>
      cases hp
      dsimp only [AccountAwait.map, AccountCall.exec]
      by_cases hnul : nul ∈ email.toList
      · rw [if_pos hnul]
        exact .unreadable hnul
      · rw [if_neg hnul]
        cases hu : UserRepository.findByEmail c.store.users email with
        | none => exact .checks ch ha hu
        | some user => exact .found user hu
    | hash =>
      cases hp
      exact .hashes ch.text
    | create passwordHash =>
      cases hp
      dsimp only [AccountAwait.map]
      cases hx : ((AccountCall.createUser email passwordHash).exec env.crypto ch c.store).1 with
      | error e => exact .refused ch ha passwordHash e hx
      | ok user => exact .inserts ch ha passwordHash user hx
    | setRefreshTokenHash session =>
      cases hp
      exact .stores session
    | returned | threw => cases hp

/-- Only a registration becomes one. -/
theorem registers_of_moves {i : Nat} {t t' : AccountTask} (hm : CallMoves env c a i t t') {password : String} {p' : Register}
    (he : t' = .register email password p') : ∃ p, t = .register email password p := by
  have keeps : ∀ {random : BitVec 192} {aw : AccountAwait AccountTask} {reply : Except Err aw.α},
      t.next env.crypto env.auth c.world.now random = some aw → aw.resume reply = .register email password p' →
        ∃ p, t = .register email password p := by
    intro random aw reply hn he
    cases t with
    | register email₀ password₀ p =>
      obtain ⟨aw, -, rfl⟩ := Option.map_eq_some_iff.1 hn
      cases he
      exact ⟨p, rfl⟩
    | _ =>
      obtain ⟨aw, -, rfl⟩ := Option.map_eq_some_iff.1 hn
      cases he
  cases hm with
  | waits => exact ⟨p', he⟩
  | exec ch _ hn => exact keeps hn he
  | reject e _ hn => exact keeps hn he

/-- A registration is one before the step, or has just been called. -/
theorem registers_back (h : TenantStepped env c a c') {i : Nat} {p' : Register} (hi : Registers c' i email p') :
    (∃ p, Registers c i email p ∧ RegisterMoves env c a i email p p') ∨ (p' = .findByEmail ∧ i = c.calls.length) := by
  obtain ⟨password, hi⟩ := hi
  rcases callMoves_back h hi with ⟨t, ht, hm⟩ | ⟨r, -, rfl, he⟩
  · obtain ⟨p, rfl⟩ := registers_of_moves hm rfl
    obtain ⟨p'', he, hmoves⟩ := register_moves hm
    cases he
    exact Or.inl ⟨p, ⟨password, ht⟩, hmoves⟩
  · cases r <;> cases he
    exact Or.inr ⟨rfl, rfl⟩

/-- A registration stays in its place. -/
theorem registers_forward (h : TenantStepped env c a c') {i : Nat} {p : Register} (hi : Registers c i email p) :
    ∃ p', Registers c' i email p' ∧ RegisterMoves env c a i email p p' := by
  obtain ⟨password, hi⟩ := hi
  obtain ⟨t', ht', hm⟩ := callMoves_forward h hi
  obtain ⟨p', rfl, hmoves⟩ := register_moves hm
  exact ⟨p', ⟨password, ht'⟩, hmoves⟩

/-- A call is at one point. -/
theorem registers_unique {i : Nat} {email' : String} {p p' : Register} (h : Registers c i email p) (h' : Registers c i email' p') :
    email = email' ∧ p = p' := by
  obtain ⟨password, h⟩ := h
  obtain ⟨password', h'⟩ := h'
  cases h.symm.trans h'
  exact ⟨rfl, rfl⟩

/-! ## A registration that throws has inserted nothing -/

/-- A registration that has inserted its row is at its last call, or has returned. -/
def PastInsert (p : Register) : Prop := ∃ session, p = .setRefreshTokenHash session ∨ p = .returned session

/-- From there it comes to the end, unless its last call fails. -/
theorem pastInsert_moves {i : Nat} {p p' : Register} (h : PastInsert p) (hm : RegisterMoves env c a i email p p')
    (hstored : ∀ e session, a = .reject i e → p ≠ .setRefreshTokenHash session) : PastInsert p' := by
  obtain ⟨session, rfl | rfl⟩ := h
  · cases hm with
    | waits => exact ⟨session, Or.inl rfl⟩
    | stores => exact ⟨session, Or.inr rfl⟩
    | fails _ e ha => exact absurd rfl (hstored e session ha)
  · cases hm with
    | waits => exact ⟨session, Or.inr rfl⟩
    | fails _ e _ hended => exact absurd (Or.inl ⟨session, rfl⟩) hended

/-- An insert that succeeds leads there. -/
theorem pastInsert_of_insert {i : Nat} {ch : AccountChoice} {passwordHash : String} {user : User} {p' : Register}
    (hm : RegisterMoves env c (.exec i ch) i email (.create passwordHash) p')
    (hx : ((AccountCall.createUser email passwordHash).exec env.crypto ch c.store).1 = .ok user) : PastInsert p' := by
  cases hm with
  | waits _ hexec => exact absurd rfl (hexec ch)
  | inserts ch' _ _ user' => exact ⟨_, Or.inl rfl⟩
  | refused ch' ha _ e hx' =>
    cases ha
    cases hx.symm.trans hx'
  | fails _ e ha => cases ha

/-- In a run without such a failure, every registration that has inserted a row is there. -/
theorem inserted_kept (hok : ∀ c a, ok c a → RegistersApart c a) {past : List (Tenants × TenantAction)}
    (h : (tenants env).withPast.Reach (Lts.onSteps ok) (c, past)) :
    ∀ i id, InsertedBy env past i id → ∃ email p, Registers c i email p ∧ PastInsert p := by
  refine h.invariant_past (I := fun c past => ∀ i id, InsertedBy env past i id → ∃ email p, Registers c i email p ∧ PastInsert p) ?_ ?_
  · rintro c - i id ⟨step, hmem, -⟩
    cases hmem
  · rintro c past a c' - hI hoka hs i id ⟨step, hmem, ch, email, passwordHash, user, ha, hi, hx, hid⟩
    have hst := tenants_step_cases hs
    rcases List.mem_cons.1 hmem with rfl | hmem
    · dsimp only at ha hi hx
      subst ha
      obtain ⟨p', hi', hm⟩ := registers_forward hst hi
      exact ⟨email, p', hi', pastInsert_of_insert hm hx⟩
    · obtain ⟨email', p, hp, hpast⟩ := hI i id ⟨step, hmem, ch, email, passwordHash, user, ha, hi, hx, hid⟩
      obtain ⟨p', hp', hm⟩ := registers_forward hst hp
      refine ⟨email', p', hp', pastInsert_moves hpast hm (fun e session ha he => ?_)⟩
      exact (hok c a hoka).stored i e email' session ha (he ▸ hp)

/-! ## One of several succeeds -/

/-- No row has the e-mail, and of the registrations of it at most one is past its look. -/
structure Unclaimed (n : Nat) (email : String) (c : Tenants) : Prop where
  free : ∀ user ∈ c.world.db.users, user.email ≠ email
  early : ∀ i p, n ≤ i → Registers c i email p → p = .findByEmail ∨ Checked p
  sole : ∀ i j p q, Registers c i email p → Checked p → Registers c j email q → Checked q → i = j

/-- Registration `k` has inserted the row of the e-mail; the others find it. -/
structure Claimed (n : Nat) (email : String) (c : Tenants) (k : Nat) (session : Session) : Prop where
  new : n ≤ k
  owner : session.user.email = email
  winner : Registers c k email (.setRefreshTokenHash session) ∨ Registers c k email (.returned session)
  row : ∃ user ∈ c.world.db.users, user.email = email
  others : ∀ j p, n ≤ j → j ≠ k → Registers c j email p → p = .findByEmail ∨ p = .threw emailTaken

/-- What every step keeps. -/
structure Contest (n : Nat) (email : String) (c : Tenants) : Prop where
  calls : n ≤ c.calls.length
  old : ∀ i p, i < n → Registers c i email p → RegisterEnded p
  stage : Unclaimed n email c ∨ ∃ k session, Claimed n email c k session

/-- The row of an e-mail is found. -/
theorem findByEmail_none {users : Table User.id} (h : UserRepository.findByEmail users email = none) :
    ∀ user ∈ users, user.email ≠ email := by
  intro user hmem he
  have hsel : user ∈ users.select (fun user => user.email = email) := Table.mem_select.2 ⟨hmem, decide_eq_true he⟩
  rw [List.head?_eq_none_iff.1 h] at hsel
  cases hsel

/-- What is found has the e-mail. -/
theorem findByEmail_some {users : Table User.id} {user : User} (h : UserRepository.findByEmail users email = some user) :
    user ∈ users ∧ user.email = email := by
  obtain ⟨hmem, he⟩ := Table.mem_select.1 (List.mem_of_mem_head? h)
  exact ⟨hmem, of_decide_eq_true he⟩

/-- A row of an e-mail stays. -/
theorem row_kept (h : TenantStepped env c a c') (hrow : ∃ user ∈ c.world.db.users, user.email = email) :
    ∃ user ∈ c'.world.db.users, user.email = email := by
  obtain ⟨user, hmem, he⟩ := hrow
  rcases users_step h with hfaces | ⟨i, ch, email', password, hash, -, -, -, hins, -⟩
  · obtain ⟨user', hmem', -, he'⟩ := SameFaces.mem hfaces hmem
    exact ⟨user', hmem', he'.trans he⟩
  · exact ⟨user, (Table.insert_eq_some hins user).2 (Or.inl hmem), he⟩

/-- The step inserts the row of the e-mail. -/
def Claims (c : Tenants) (a : TenantAction) (email : String) (i : Nat) : Prop :=
  ∃ ch passwordHash, a = .exec i ch ∧ Registers c i email (.create passwordHash)

/-- An e-mail stays free over a step that does not insert its row. -/
theorem free_kept (h : TenantStepped env c a c') (hno : ∀ i, ¬ Claims c a email i)
    (hfree : ∀ user ∈ c.world.db.users, user.email ≠ email) : ∀ user ∈ c'.world.db.users, user.email ≠ email := by
  intro user hmem he
  rcases users_step h with hfaces | ⟨i, ch, email', password, hash, ha, hi, -, hins, -⟩
  · obtain ⟨user₀, hmem₀, -, he₀⟩ := SameFaces.mem (Eq.symm hfaces) hmem
    exact hfree user₀ hmem₀ (he₀.trans he)
  · rcases (Table.insert_eq_some hins user).1 hmem with hmem | rfl
    · exact hfree user hmem he
    · have hmail : email' = email := he
      subst hmail
      exact hno i ⟨ch, hash, ha, password, hi⟩

/-- The row that an insert answers with is in the table. -/
theorem inserted_row {i : Nat} {ch : AccountChoice} {passwordHash : String} {user : User} (h : TenantStepped env c (.exec i ch) c')
    (hi : Registers c i email (.create passwordHash))
    (hx : ((AccountCall.createUser email passwordHash).exec env.crypto ch c.store).1 = .ok user) :
    user ∈ c'.world.db.users ∧ user.email = email := by
  obtain ⟨password, hi⟩ := hi
  cases h with
  | @exec _ _ t aw ht hn =>
    cases hi.symm.trans ht
    cases hn
    dsimp only [AccountAwait.map]
    rcases @exec_createUser env.crypto ch c.store email passwordHash with he | ⟨users, he, hcreate, -⟩
    · rw [he] at hx
      cases hx
    · rw [he] at hx ⊢
      cases hx
      obtain ⟨-, hins, -⟩ := insert_of_create hcreate
      exact ⟨(Table.insert_eq_some hins _).2 (Or.inr rfl), rfl⟩

/-- A registration past its look was past it before the step, or has just looked. -/
theorem checked_back (h : TenantStepped env c a c') {i : Nat} {p' : Register} (hi : Registers c' i email p') (hc : Checked p') :
    (∃ p, Registers c i email p ∧ Checked p) ∨ ∃ ch, a = .exec i ch ∧ Registers c i email .findByEmail := by
  rcases registers_back h hi with ⟨p, hp, hm⟩ | ⟨rfl, -⟩
  · cases hm with
    | waits => exact Or.inl ⟨_, hp, hc⟩
    | checks ch ha => exact Or.inr ⟨ch, ha, hp⟩
    | hashes => exact Or.inl ⟨_, hp, Or.inl rfl⟩
    | unreadable | found | inserts | refused | stores | fails => rcases hc with hc | ⟨_, hc⟩ <;> cases hc
  · rcases hc with hc | ⟨_, hc⟩ <;> cases hc

/-- A step that does not insert the row leaves the e-mail unclaimed. -/
theorem unclaimed_step {n : Nat} (h : TenantStepped env c a c') (hplain : nul ∉ email.toList) (hok : RegistersApart c a) (hnf : NoFailure email c a)
    (hno : ∀ i, ¬ Claims c a email i) (hU : Unclaimed n email c) : Unclaimed n email c' where
  free := free_kept h hno hU.free
  early := by
    intro i p' hn hi
    rcases registers_back h hi with ⟨p, hp, hm⟩ | ⟨rfl, -⟩
    · have hearly : p = .findByEmail ∨ Checked p := hU.early i p hn hp
      cases hm with
      | waits => exact hearly
      | unreadable hnul => exact absurd hnul hplain
      | found user hu => exact absurd (findByEmail_some hu).2 (hU.free user (findByEmail_some hu).1)
      | checks => exact Or.inr (Or.inl rfl)
      | hashes passwordHash => exact Or.inr (Or.inr ⟨passwordHash, rfl⟩)
      | inserts ch ha passwordHash => exact absurd ⟨ch, passwordHash, ha, hp⟩ (hno i)
      | refused ch ha passwordHash => exact absurd ⟨ch, passwordHash, ha, hp⟩ (hno i)
      | stores => rcases hearly with he | he | ⟨_, he⟩ <;> cases he
      | fails _ e ha => exact absurd hp (hnf.rejected i e _ ha)
    · exact Or.inl rfl
  sole := by
    intro i j p' q' hi hpi hj hqj
    rcases checked_back h hi hpi with ⟨p, hp, hpc⟩ | ⟨ch, ha, hp⟩ <;> rcases checked_back h hj hqj with ⟨q, hq, hqc⟩ | ⟨ch', ha', hq⟩
    · exact hU.sole i j p q hp hpc hq hqc
    -- one of the two has just looked while the other was past its look
    · exact absurd hpc (hok.apart j ch' email ha' hq i p hp)
    · exact absurd hqc (hok.apart i ch email ha hp j q hq)
    · cases ha.symm.trans ha'
      rfl

/-- The step that inserts the row claims the e-mail. -/
theorem claim_step {n i : Nat} (h : TenantStepped env c a c') (hids : ∀ user ∈ c.world.db.users, user.id ∈ c.world.issued)
    (hlength : email.length ≤ 255) (hplain : nul ∉ email.toList) (hnf : NoFailure email c a) (hU : Unclaimed n email c) (hn : n ≤ i)
    (hclaim : Claims c a email i) :
    ∃ session, Claimed n email c' i session := by
  obtain ⟨ch, passwordHash, rfl, hi⟩ := hclaim
  have hx := @createUser_succeeds env.crypto ch c.store email passwordHash hlength hplain hU.free hids
    (hnf.fresh i ch passwordHash rfl hi)
  obtain ⟨hmem, hmail⟩ := inserted_row h hi hx
  obtain ⟨p', hi', hm⟩ := registers_forward h hi
  have others : ∀ j p', n ≤ j → j ≠ i → Registers c' j email p' → p' = .findByEmail ∨ p' = .threw emailTaken := by
    intro j p' hn hji hj
    rcases registers_back h hj with ⟨p, hp, hm⟩ | ⟨rfl, -⟩
    · rcases hU.early j p hn hp with rfl | hc
      · cases hm with
        | waits => exact Or.inl rfl
        | unreadable hnul => exact absurd hnul hplain
        | found => exact Or.inr rfl
        | checks ch' ha =>
          cases ha
          exact absurd rfl hji
        | fails _ e ha => cases ha
      · exact absurd (hU.sole j i p _ hp hc hi (Or.inr ⟨passwordHash, rfl⟩)) hji
    · exact Or.inl rfl
  cases hm with
  | waits _ hexec => exact absurd rfl (hexec ch)
  | inserts ch' ha _ user hx' =>
    cases ha
    cases hx.symm.trans hx'
    exact ⟨_, hn, rfl, Or.inl hi', ⟨_, hmem, hmail⟩, others⟩
  | refused ch' ha _ e hx' =>
    cases ha
    cases hx.symm.trans hx'
  | fails _ e ha => cases ha

/-- A claimed e-mail stays claimed, by the same registration. -/
theorem claimed_step {n k : Nat} {session : Session} (h : TenantStepped env c a c') (hplain : nul ∉ email.toList)
    (hnf : NoFailure email c a) (hC : Claimed n email c k session) : Claimed n email c' k session where
  new := hC.new
  owner := hC.owner
  winner := by
    rcases hC.winner with hk | hk
    · obtain ⟨p', hk', hm⟩ := registers_forward h hk
      cases hm with
      | waits => exact Or.inl hk'
      | stores => exact Or.inr hk'
      | fails _ e ha => exact absurd hk (hnf.rejected k e _ ha)
    · obtain ⟨p', hk', hm⟩ := registers_forward h hk
      cases hm with
      | waits => exact Or.inr hk'
      | fails _ e ha => exact absurd hk (hnf.rejected k e _ ha)
  row := row_kept h hC.row
  others := by
    intro j p' hn hjk hj
    rcases registers_back h hj with ⟨p, hp, hm⟩ | ⟨rfl, -⟩
    · rcases hC.others j p hn hjk hp with rfl | rfl
      · cases hm with
        | waits => exact Or.inl rfl
        | unreadable hnul => exact absurd hnul hplain
        | found => exact Or.inr rfl
        | checks ch ha hu =>
          obtain ⟨user, hmem, he⟩ := hC.row
          exact absurd he (findByEmail_none hu user hmem)
        | fails _ e ha => exact absurd hp (hnf.rejected j e _ ha)
      · cases hm with
        | waits => exact Or.inr rfl
        | fails _ e ha => exact absurd hp (hnf.rejected j e _ ha)
    · exact Or.inl rfl

/-- A registration that has ended stays as it is. -/
theorem ended_moves {i : Nat} {p p' : Register} (h : RegisterEnded p) (hm : RegisterMoves env c a i email p p') : p' = p := by
  rcases h with ⟨session, rfl⟩ | ⟨e, rfl⟩
  all_goals
    cases hm with
    | waits => rfl
    | fails _ e ha hended => exact absurd (by simp [RegisterEnded]) hended

/-- One step of the contest. -/
theorem contest_step {n : Nat} (h : TenantStepped env c a c') (hids : ∀ user ∈ c.world.db.users, user.id ∈ c.world.issued)
    (hlength : email.length ≤ 255) (hplain : nul ∉ email.toList) (hok : RegistersApart c a) (hnf : NoFailure email c a)
    (hI : Contest n email c) : Contest n email c' where
  calls := by
    have hcalls := hI.calls
    rcases length_calls h with hlen | ⟨r, -, hlen⟩
    · omega
    · rw [hlen, List.length_append]
      omega
  old := by
    intro i p' hi hp'
    rcases registers_back h hp' with ⟨p, hp, hm⟩ | ⟨-, he⟩
    · exact ended_moves (hI.old i p hi hp) hm ▸ hI.old i p hi hp
    · have hcalls := hI.calls
      omega
  stage := by
    rcases hI.stage with hU | ⟨k, session, hC⟩
    · by_cases hclaim : ∃ i, Claims c a email i
      · obtain ⟨i, hclaim⟩ := hclaim
        have hn : n ≤ i := by
          by_contra hlt
          obtain ⟨ch, passwordHash, -, hi⟩ := hclaim
          rcases hI.old i _ (by omega) hi with ⟨_, he⟩ | ⟨_, he⟩ <;> cases he
        obtain ⟨session, hC⟩ := claim_step h hids hlength hplain hnf hU hn hclaim
        exact Or.inr ⟨i, session, hC⟩
      · exact Or.inl (unclaimed_step h hplain hok hnf (fun i hi => hclaim ⟨i, hi⟩) hU)
    · exact Or.inr ⟨k, session, claimed_step h hplain hnf hC⟩

/-- When all have ended, the contest has a winner. -/
theorem oneSucceeds_of_contest (hI : Contest c₀.calls.length email c) (hended : ∀ i p, Registers c i email p → RegisterEnded p)
    (hsome : ∃ i p, c₀.calls.length ≤ i ∧ Registers c i email p) : OneSucceeds c₀ c email := by
  rcases hI.stage with hU | ⟨k, session, hC⟩
  · obtain ⟨i, p, hn, hi⟩ := hsome
    rcases hU.early i p hn hi with rfl | rfl | ⟨_, rfl⟩ <;> rcases hended i _ hi with ⟨_, he⟩ | ⟨_, he⟩ <;> cases he
  · have hreturned : Registers c k email (.returned session) := by
      rcases hC.winner with hk | hk
      · rcases hended k _ hk with ⟨_, he⟩ | ⟨_, he⟩ <;> cases he
      · exact hk
    refine ⟨k, hC.new, ⟨session, hreturned, hC.owner⟩, fun j p hn hjk hj => ?_⟩
    rcases hC.others j p hn hjk hj with rfl | rfl
    · rcases hended j _ hj with ⟨_, he⟩ | ⟨_, he⟩ <;> cases he
    · exact ⟨emailTaken, rfl, rfl, rfl⟩

/-! ## The main result -/

/-- Registration is atomic in every run in which no last call of a registration fails and no registration looks for its e-mail between
the look and the insert of another. -/
theorem registrations_apart (env : Env) : RegistrationAtomic env RegistersApart where
  unique c h := emails_unique h
  clean := by
    intro c past h i email e hi id hins
    obtain ⟨email', p, hp, session, hpast⟩ := inserted_kept (fun _ _ hok => hok) h i id hins
    obtain ⟨-, rfl⟩ := registers_unique hi hp
    rcases hpast with he | he <;> cases he
  one := by
    intro c₀ c email hr hlength hplain hfree hold hsteps hended hsome
    refine oneSucceeds_of_contest ?_ hended hsome
    have hr' : (tenants env).Reach Lts.Free c₀ := hr.mono (fun _ _ _ => trivial)
    refine (hsteps.induct (fun c => (tenants env).Reach Lts.Free c ∧ Contest c₀.calls.length email c) ⟨hr', ?_⟩ ?_).2
    · refine ⟨Nat.le_refl _, fun i p _ hi => hold i p hi, Or.inl ⟨hfree, fun i p hn hi => ?_, fun i j p q hi hp _ _ => ?_⟩⟩
      · obtain ⟨password, hi⟩ := hi
        have hlt := (List.getElem?_eq_some_iff.1 hi).1
        omega
      · rcases hold i p hi with ⟨_, rfl⟩ | ⟨_, rfl⟩ <;> rcases hp with he | ⟨_, he⟩ <;> cases he
    · rintro c a c' ⟨hr, hI⟩ ⟨hok, hnf⟩ hs
      exact ⟨hr.step a trivial hs, contest_step (tenants_step_cases hs) (usersIssued hr) hlength hplain hok hnf hI⟩

/-! ## Two at once, and a late failure -/

/-- A signature scheme to evaluate, with the default settings. -/
def Trace.tenantEnv : Env := ⟨Trace.crypto, fun _ _ => true, Config.default, Trace.ttl⟩

/-- Two registrations of one e-mail: both find it free, and the second insert breaks the constraint. -/
def twoAtOnce : List TenantAction :=
  [.call (.register "a@b.c" "secret"), .call (.register "a@b.c" "other"), .exec 0 ⟨Trace.uuid 1, "", 0, []⟩, .exec 1 ⟨Trace.uuid 2, "", 0, []⟩,
    .exec 0 ⟨Trace.uuid 3, "bcrypt:secret", 0, []⟩, .exec 1 ⟨Trace.uuid 4, "bcrypt:other", 0, []⟩, .exec 0 ⟨Trace.uuid 5, "", 0, []⟩,
    .exec 1 ⟨Trace.uuid 6, "", 0, []⟩, .exec 0 ⟨Trace.uuid 7, "", 0, []⟩]

/-- No call is rejected in transit, and every id is new. -/
def unfailing (c : Tenants) : TenantAction → Bool
  | .exec _ ch => decide (ch.id ∉ c.world.issued)
  | .reject _ _ => false
  | _ => true

theorem noFailure_of_unfailing (h : unfailing c a = true) : NoFailure email c a where
  rejected := by
    rintro i e p rfl
    cases h
  fresh := by
    rintro i ch passwordHash rfl -
    exact of_decide_eq_true h

/-- The registration has ended. -/
def AccountTask.registerEnded : AccountTask → Bool
  | .register _ _ (.returned _) | .register _ _ (.threw _) => true
  | _ => false

theorem ended_of_registerEnded (h : c.calls.all AccountTask.registerEnded = true) (i : Nat) (p : Register) (hi : Registers c i email p) :
    RegisterEnded p := by
  obtain ⟨password, hi⟩ := hi
  have hp := List.all_eq_true.1 h _ (List.mem_of_getElem? hi)
  cases p with
  | returned session => exact Or.inl ⟨session, rfl⟩
  | threw e => exact Or.inr ⟨e, rfl⟩
  | findByEmail | hash | create | setRefreshTokenHash => cases hp

/-- The second registration ends with the error of the database, which the client sees as an internal error. -/
theorem registration_races : ¬ RegistrationAtomic Trace.tenantEnv Lts.Free := by
  intro h
  have hrun : (((tenants Trace.tenantEnv).when unfailing).run Tenants.empty twoAtOnce).any (fun c =>
      c.calls.all AccountTask.registerEnded && decide (c.calls[1]? = some (.register "a@b.c" "other" (.threw rejected)))) = true := by
    decide
  obtain ⟨c, hc, htest⟩ := Lts.steps_of_when hrun
  obtain ⟨hended, hlost⟩ := Bool.and_eq_true_iff.1 htest
  have hlost : Registers c 1 "a@b.c" (.threw rejected) := ⟨"other", of_decide_eq_true hlost⟩
  obtain ⟨i, -, ⟨session, hi, -⟩, hothers⟩ := h.one Tenants.empty c "a@b.c" (.init rfl) (by decide) (by decide)
    (fun user hmem => absurd hmem (Table.not_mem_empty user)) (fun i p ⟨_, hi⟩ => by simp [Tenants.empty] at hi)
    (hc.mono (fun c a ha => ⟨trivial, noFailure_of_unfailing ha⟩)) (ended_of_registerEnded hended) ⟨1, _, Nat.zero_le 1, hlost⟩
  have hne : 1 ≠ i := by
    rintro rfl
    cases (registers_unique hi hlost).2
  obtain ⟨e, he, hcode, -⟩ := hothers 1 _ (Nat.zero_le 1) hne hlost
  cases he
  cases hcode

/-- A registration whose last call fails: its row stays. -/
def lateFailure : List TenantAction :=
  [.call (.register "a@b.c" "secret"), .exec 0 ⟨Trace.uuid 1, "", 0, []⟩, .exec 0 ⟨Trace.uuid 2, "bcrypt:secret", 0, []⟩,
    .exec 0 ⟨Trace.uuid 3, "", 0, []⟩, .reject 0 (.error "ECONNRESET")]

/-- The registration has thrown and its row is in the table. -/
theorem registration_leaves_row : ∃ c user, (tenants Trace.tenantEnv).Reach Lts.Free c ∧
    Registers c 0 "a@b.c" (.threw (.error "ECONNRESET")) ∧ user ∈ c.world.db.users ∧ user.email = "a@b.c" := by
  have hrun : ((tenants Trace.tenantEnv).run Tenants.empty lateFailure).any (fun c =>
      decide (c.calls[0]? = some (.register "a@b.c" "secret" (.threw (.error "ECONNRESET")))) &&
        c.world.db.users.rows.any (fun user => decide (user.email = "a@b.c"))) = true := by
    decide
  obtain ⟨c, hc, htest⟩ := Lts.steps_of_any hrun
  obtain ⟨hthrew, hrow⟩ := Bool.and_eq_true_iff.1 htest
  obtain ⟨user, hmem, he⟩ := List.any_eq_true.1 hrow
  exact ⟨c, user, ⟨Tenants.empty, rfl, hc⟩, ⟨"secret", of_decide_eq_true hthrew⟩, hmem, of_decide_eq_true he⟩

end FileProcessing
