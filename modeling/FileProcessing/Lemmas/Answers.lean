import FileProcessing.Lemmas.Tenants
import FileProcessing.Server

/-!
# What the calls of the services return

A call returns rows of the user it is made for, and what it signs names a user who has a row. Each is of the request that started it
until it ends.
-/

namespace FileProcessing

open AuthService ApiKeyService FileService

variable {env : Env} {ok : Tenants → TenantAction → Prop} {c c' : Tenants} {a : TenantAction}

/-! ## The users and the sessions -/

theorem hasUser_iff {users : Table User.id} {u : Uuid} : HasUser users u ↔ ∃ user ∈ users, user.id = u := by
  unfold HasUser
  constructor
  · intro h
    obtain ⟨user, huser⟩ := Option.isSome_iff_exists.1 h
    exact ⟨user, (Table.mem_select.1 (List.mem_of_head? huser)).1, id_of_findById huser⟩
  · rintro ⟨user, hmem, rfl⟩
    have hsome : user ∈ users.select (fun x => decide (x.id = user.id)) := Table.mem_select.2 ⟨hmem, decide_eq_true rfl⟩
    rw [UserRepository.findById, Option.isSome_iff_ne_none]
    intro hnone
    rw [List.head?_eq_none_iff.1 hnone] at hsome
    cases hsome

theorem hasUser_of_find {users : Table User.id} {u : Uuid} {user : User} (h : UserRepository.findById users u = some user) :
    HasUser users u := by
  unfold HasUser
  rw [h]
  rfl

/-- A user who has a row keeps one. -/
theorem hasUser_kept (h : TenantStepped env c a c') {u : Uuid} (hu : HasUser c.world.db.users u) : HasUser c'.world.db.users u := by
  cases h with
  | platform b system step old =>
    obtain ⟨-, -, husers, -⟩ := step_withAccounts step old rfl (fun id hid => hid)
    have hworld : Tenants.world { c with system := system } = system.world := rfl
    rw [hworld, husers]
    exact hu
  | @exec i ch t aw ht hn => exact HasUser.exec (a := c.store) hu ch aw.call
  | call | reject | read | execRead | rejectRead => exact hu

/-- Who has a row after a step had one before, or has an id that was new. -/
theorem hasUser_back (h : TenantStepped env c a c') {u : Uuid} (hu : HasUser c'.world.db.users u) :
    HasUser c.world.db.users u ∨ u ∉ c.world.issued := by
  obtain ⟨user, hmem, rfl⟩ := hasUser_iff.1 hu
  rcases users_step h with hfaces | ⟨i, ch, email, password, hash, -, -, -, hins, -, hfresh, -⟩
  · obtain ⟨old, hold, hid, -⟩ := SameFaces.mem (Eq.symm hfaces) hmem
    exact Or.inl (hasUser_iff.2 ⟨old, hold, hid⟩)
  · rcases (Table.insert_eq_some hins user).1 hmem with hold | rfl
    · exact Or.inl (hasUser_iff.2 ⟨user, hold, rfl⟩)
    · exact Or.inr hfresh

/-- A session lasts. -/
theorem session_kept (h : TenantStepped env c a c') {id : Uuid} (hid : id ∈ c.world.sessions) : id ∈ c'.world.sessions := by
  cases h with
  | platform b system step old =>
    cases step_cases step with
    | @exec i pick ch t aw ht hn =>
      show id ∈ (aw.call.effect.apply ch c.system.world).sessions
      rw [(frame_apply ch c.system.world aw.call.effect).2.1]
      exact hid
    | guestSession new => exact List.mem_cons_of_mem _ hid
    | register user => exact absurd rfl (old user)
    | request | startSweep | reject | upload | deliver | stall | settle | tick => exact hid
  | @exec i ch t aw ht hn =>
    have hmove := accountsMove env.crypto aw.call ch c.store
    generalize (aw.call.exec env.crypto ch c.store).2 = store at hmove
    cases hmove with
    | registers => exact List.mem_cons_of_mem _ hid
    | issues | keeps => exact hid
  | call | reject | read | execRead | rejectRead => exact hid

/-- Whom a token may name: a session has begun under the id, and the id has a row of `users` unless the token is a guest's. -/
structure Subject (c : Tenants) (id : Uuid) (role : Option TokenRole) : Prop where
  session : id ∈ c.world.sessions
  issued : id ∈ c.world.issued
  account : HasUser c.world.db.users id ↔ role = none

theorem Subject.kept {id : Uuid} {role : Option TokenRole} (hI : Subject c id role) (h : TenantStepped env c a c') :
    Subject c' id role where
  session := session_kept h hI.session
  issued := issued_kept h hI.issued
  account := by
    rw [← hI.account]
    constructor
    · intro hu
      rcases hasUser_back h hu with hold | hnew
      · exact hold
      · exact absurd hI.issued hnew
    · exact hasUser_kept h

/-- An account that has been inserted is signed in. -/
theorem registered_session {i : Nat} {ch : AccountChoice} {email password hash : String} (h : TenantStepped env c (.exec i ch) c')
    (ht : c.calls[i]? = some (.register email password (.create hash)))
    (hok : ((AccountCall.createUser email hash).exec env.crypto ch c.store).1 = .ok (UserRepository.newRow c.world.now ch.id email hash)) :
    ch.id ∈ c'.world.sessions := by
  cases h with
  | exec ht' hn =>
    rw [ht] at ht'
    cases ht'
    cases hn
    dsimp only [AccountAwait.map]
    rcases @exec_createUser env.crypto ch c.store email hash with he | ⟨users, he, -, -⟩
    · rw [he] at hok
      cases hok
    · rw [he]
      exact List.mem_cons_self

/-- In every reachable state whoever has a row is signed in. -/
theorem usersSignedIn (h : (tenants env).Reach ok c) : ∀ u, HasUser c.world.db.users u → u ∈ c.world.sessions := by
  refine h.invariant (I := fun c => ∀ u, HasUser c.world.db.users u → u ∈ c.world.sessions) ?_ (fun c a c' _ hI _ hs u hu => ?_)
  · rintro c rfl u hu
    cases hu
  have h := tenants_step_cases hs
  rcases users_step h with hfaces | ⟨i, ch, email, password, hash, rfl, ht, hok, hins, -, -, -⟩
  · obtain ⟨user, hmem, rfl⟩ := hasUser_iff.1 hu
    obtain ⟨old, hold, hid, -⟩ := SameFaces.mem (Eq.symm hfaces) hmem
    exact session_kept h (hI _ (hasUser_iff.2 ⟨old, hold, hid⟩))
  · obtain ⟨user, hmem, rfl⟩ := hasUser_iff.1 hu
    rcases (Table.insert_eq_some hins user).1 hmem with hold | rfl
    · exact session_kept h (hI _ (hasUser_iff.2 ⟨user, hold, rfl⟩))
    · exact registered_session h ht hok

/-! ## The calls on the accounts -/

/-- The request a call on the accounts serves. -/
def AccountTask.request : AccountTask → AccountRequest
  | .register email password _ => .register email password
  | .login email password _ => .login email password
  | .refresh token _ => .refresh token
  | .logout userId _ => .logout userId
  | .me userId _ => .me userId
  | .changePassword userId currentPassword newPassword _ => .changePassword userId currentPassword newPassword
  | .listKeys userId _ => .listKeys userId
  | .createKey userId _ => .createKey userId
  | .revokeKey userId keyId _ => .revokeKey userId keyId

/-- The tokens of the session are signed for its user, who has a row. -/
structure SessionOf (env : ServerEnv) (users : Table User.id) (session : Session) : Prop where
  account : HasUser users session.user.id
  access : ∃ now, session.accessToken = env.auth.signAccessToken env.jwt now session.user.id none
  refresh : ∃ now, session.refreshToken = env.auth.signRefreshToken env.jwt now session.user.id

/-- What a call on the accounts holds and returns: sessions and tokens of users who have a row, and rows of the user it serves. -/
def AccountTask.Answers (env : ServerEnv) (users : Table User.id) : AccountTask → Prop
  | .register _ _ (.setRefreshTokenHash session) | .register _ _ (.returned session) | .login _ _ (.setRefreshTokenHash session)
  | .login _ _ (.returned session) => SessionOf env users session
  | .login _ _ (.compare user) => HasUser users user.id
  | .refresh _ (.returned accessToken) =>
    ∃ now userId, HasUser users userId ∧ accessToken = env.auth.signAccessToken env.jwt now userId none
  | .me userId (.returned user) => user.id = userId
  | .listKeys userId (.returned keys) => ∀ key ∈ keys, key.userId = userId
  | .createKey userId (.returned key _) => key.userId = userId
  | _ => True

/-- What a call on the tables replies: users who have a row, keys of the user asked for. -/
def AccountCall.Replied (users : Table User.id) : {α : Type} → AccountCall α → α → Prop
  | _, .findByEmail _, found => ∀ user, found = some user → HasUser users user.id
  | _, .findById id, found => ∀ user, found = some user → user.id = id ∧ HasUser users id
  | _, .createUser _ _, user => HasUser users user.id
  | _, .findByUserId userId, rows => ∀ row ∈ rows, row.userId = userId
  | _, .createKey data, row => row.userId = data.userId
  | _, _, _ => True

theorem replied_exec {α : Type} {crypto : Crypto} (call : AccountCall α) {ch : AccountChoice} {store : AccountStore} {v : α}
    (h : (call.exec crypto ch store).1 = .ok v) : call.Replied (call.exec crypto ch store).2.users v := by
  cases call with
  | findByEmail email =>
    by_cases hnul : nul ∈ email.toList
    · rw [AccountCall.exec, if_pos hnul] at h
      cases h
    · rw [AccountCall.exec, if_neg hnul] at h
      cases h
      exact fun user hfound => hasUser_of_find (findById_of_email hfound)
  | findById id =>
    cases h
    exact fun user hfound => ⟨id_of_findById hfound, hasUser_of_find hfound⟩
  | createUser email passwordHash =>
    rcases @exec_createUser crypto ch store email passwordHash with he | ⟨users, he, hcreate, -⟩
    · rw [he] at h
      cases h
    · rw [he] at h ⊢
      cases h
      obtain ⟨-, hins, -⟩ := insert_of_create hcreate
      exact hasUser_iff.2 ⟨_, (Table.insert_eq_some hins _).2 (Or.inr rfl), rfl⟩
  | findByUserId userId =>
    cases h
    intro row hrow
    exact of_decide_eq_true (Table.mem_select.1 (mem_inOrder.1 hrow)).2
  | createKey data =>
    rcases @exec_createKey crypto ch store data with he | ⟨apiKeys, he, -, -⟩
    · rw [he] at h
      cases h
    · rw [he] at h ⊢
      cases h
      rfl
  | setRefreshTokenHash | updatePassword | bcryptHash | bcryptCompare | countByUserId | deleteById => trivial

/-- What a call holds stays true as accounts come in. -/
theorem AccountTask.Answers.mono {env : ServerEnv} {users users' : Table User.id} {t : AccountTask} (h : t.Answers env users)
    (hle : ∀ u, HasUser users u → HasUser users' u) : t.Answers env users' := by
  have session {x : Session} (hx : SessionOf env users x) : SessionOf env users' x := ⟨hle _ hx.account, hx.access, hx.refresh⟩
  cases t with
  | register email password p =>
    cases p with
    | setRefreshTokenHash | returned => exact session h
    | findByEmail | hash | create | threw => trivial
  | login email password p =>
    cases p with
    | setRefreshTokenHash | returned => exact session h
    | compare => exact hle _ h
    | findByEmail | threw => trivial
  | refresh token p =>
    cases p with
    | returned accessToken =>
      obtain ⟨now, userId, hu, he⟩ := h
      exact ⟨now, userId, hle _ hu, he⟩
    | findById | setRefreshTokenHash | threw => trivial
  | me userId p | listKeys userId p | createKey userId p => cases p <;> exact h
  | logout | changePassword | revokeKey => trivial

/-- A session is made for a user who has a row. -/
theorem sessionOf_new (env : ServerEnv) {users : Table User.id} (now : Time) {user : User} (h : HasUser users user.id) :
    SessionOf env users (newSession env.env.crypto env.env.auth now user) where
  account := h
  access := ⟨now, rfl⟩
  refresh := ⟨now, rfl⟩

/-- A call goes on holding this, with what the tables reply. -/
theorem answers_resume {env : ServerEnv} {users : Table User.id} {now : Time} {random : BitVec 192} {t : AccountTask}
    {aw : AccountAwait AccountTask} {r : Except Err aw.α} (hn : t.next env.env.crypto env.env.auth now random = some aw)
    (h : t.Answers env users) (hr : ∀ v, r = .ok v → aw.call.Replied users v) : (aw.resume r).Answers env users := by
  cases t with
  | register email password p =>
    obtain ⟨aw, hp, rfl⟩ := Option.map_eq_some_iff.1 hn
    cases p with
    | findByEmail =>
      cases hp
      rcases r with e | _ | user <;> trivial
    | hash =>
      cases hp
      cases r <;> trivial
    | create passwordHash =>
      cases hp
      cases r with
      | error e => trivial
      | ok user => exact sessionOf_new env now (hr user rfl)
    | setRefreshTokenHash session =>
      cases hp
      cases r with
      | error e => trivial
      | ok v => exact h
    | returned | threw => cases hp
  | login email password p =>
    obtain ⟨aw, hp, rfl⟩ := Option.map_eq_some_iff.1 hn
    cases p with
    | findByEmail =>
      cases hp
      rcases r with e | _ | user
      · trivial
      · trivial
      · exact hr _ rfl user rfl
    | compare user =>
      cases hp
      rcases r with e | _ | _
      · trivial
      · trivial
      · exact sessionOf_new env now h
    | setRefreshTokenHash session =>
      cases hp
      cases r with
      | error e => trivial
      | ok v => exact h
    | returned | threw => cases hp
  | refresh token p =>
    obtain ⟨aw, hp, rfl⟩ := Option.map_eq_some_iff.1 hn
    cases p with
    | findById userId =>
      cases hp
      rcases r with e | found
      · trivial
      · cases hfound : found.bind (fun user => user.refreshTokenHash) with
        | none => simp [AccountAwait.map, hfound, AccountTask.Answers]
        | some hash =>
          obtain ⟨user, huser, -⟩ := Option.bind_eq_some_iff.1 hfound
          have hu : HasUser users userId := (hr found rfl user huser).2
          dsimp only [AccountAwait.map]
          rw [hfound]
          dsimp only
          split
          · trivial
          · split
            · trivial
            · exact ⟨now, userId, hu, rfl⟩
    | setRefreshTokenHash userId =>
      cases hp
      cases r <;> trivial
    | returned | threw => cases hp
  | me userId p =>
    obtain ⟨aw, hp, rfl⟩ := Option.map_eq_some_iff.1 hn
    cases p with
    | findById =>
      cases hp
      rcases r with e | _ | user
      · trivial
      · trivial
      · exact (hr _ rfl user rfl).1
    | returned | threw => cases hp
  | listKeys userId p =>
    obtain ⟨aw, hp, rfl⟩ := Option.map_eq_some_iff.1 hn
    cases p with
    | findByUserId =>
      cases hp
      cases r with
      | error e => trivial
      | ok rows =>
        intro key hkey
        obtain ⟨row, hrow, rfl⟩ := List.mem_map.1 hkey
        exact hr rows rfl row hrow
    | returned | threw => cases hp
  | createKey userId p =>
    obtain ⟨aw, hp, rfl⟩ := Option.map_eq_some_iff.1 hn
    cases p with
    | countByUserId =>
      cases hp
      cases r with
      | error e => trivial
      | ok count =>
        dsimp only [AccountAwait.map]
        split <;> trivial
    | create rawKey =>
      cases hp
      cases r with
      | error e => trivial
      | ok row => exact hr row rfl
    | returned | threw => cases hp
  | logout userId p | changePassword userId cur new p | revokeKey userId keyId p =>
    obtain ⟨aw, hp, rfl⟩ := Option.map_eq_some_iff.1 hn
    trivial

/-- A call serves one request to its end. -/
theorem request_resume {crypto : Crypto} {auth : AuthServiceConfig} {now : Time} {random : BitVec 192} {t : AccountTask}
    {aw : AccountAwait AccountTask} (hn : t.next crypto auth now random = some aw) (r : Except Err aw.α) :
    (aw.resume r).request = t.request := by
  cases t <;> (obtain ⟨aw, -, rfl⟩ := Option.map_eq_some_iff.1 hn) <;> rfl

/-- A call begins with nothing, and serves the request that started it. -/
theorem answers_task (env : ServerEnv) (users : Table User.id) (now : Time) (r : AccountRequest) :
    (r.task env.env.crypto now).Answers env users ∧ (r.task env.env.crypto now).request = r := by
  cases r with
  | refresh token =>
    refine ⟨?_, rfl⟩
    simp only [AccountRequest.task, refresh.start]
    split
    · trivial
    · split <;> trivial
  | register | login | logout | me | changePassword | listKeys | createKey | revokeKey => exact ⟨trivial, rfl⟩

/-! ## The calls that read -/

/-- The request a call that reads serves. -/
def ReadTask.request : ReadTask → ReadRequest
  | .listFiles userId opts _ => .listFiles userId opts
  | .findFile userId fileId _ => .findFile userId fileId
  | .downloadFile userId fileId _ => .downloadFile userId fileId
  | .listJobs userId opts _ => .listJobs userId opts
  | .findJob userId jobId _ => .findJob userId jobId

/-- What a call that reads holds and returns: rows of the user it serves. -/
def ReadTask.Answers : ReadTask → Prop
  | .listFiles userId _ (.count data) => ∀ file ∈ data, file.userId = userId
  | .listFiles userId _ (.returned page) => ∀ file ∈ page.data, file.userId = userId
  | .findFile userId _ (.returned file) | .downloadFile userId _ (.getObject file) | .downloadFile userId _ (.returned _ file) =>
    file.userId = userId
  | .listJobs userId _ (.count data) => ∀ job ∈ data, job.userId = userId
  | .listJobs userId _ (.returned page) => ∀ job ∈ page.data, job.userId = userId
  | .findJob userId _ (.returned job) => job.userId = userId
  | _ => True

/-- The files of a page are the user's. -/
theorem selectByUser_files {ilike : String → String → Bool} {order : List Uuid} {db : Db} {userId : Uuid} {opts : ListOptions}
    {data : List FileRow} (h : FileRepository.selectByUser ilike order db userId opts = .ok data) :
    ∀ file ∈ data, file.userId = userId := by
  intro file hfile
  have hlisted := (Table.mem_select.1 (mem_of_page (FileRepository.selectByUser_ok h ▸ hfile))).2
  simp only [FileRepository.listed, Bool.and_eq_true, decide_eq_true_eq] at hlisted
  exact hlisted.1.1

/-- The jobs of a page are the user's. -/
theorem selectByUser_jobs {order : List Uuid} {db : Db} {userId : Uuid} {opts : ListJobOptions} {data : List JobRow}
    (h : JobRepository.selectByUser order db userId opts = .ok data) : ∀ job ∈ data, job.userId = userId := by
  intro job hjob
  have hlisted := (Table.mem_select.1 (mem_of_page (JobRepository.selectByUser_ok h ▸ hjob))).2
  simp only [JobRepository.listed, Bool.and_eq_true, decide_eq_true_eq] at hlisted
  exact hlisted.1.1

/-- A list goes on holding rows of the user, where its `SELECT` returns such rows. -/
theorem listing_answers {α : Type} {P : α → Prop} {select : ReadCall (List α)} {count : ReadCall Nat} {page limit : Nat}
    {countFirst : Bool} {ilike : String → String → Bool} {w : World} {p : Listing α} {aw : ReadAwait (Listing α)}
    (hselect : ∀ ch data, (select.exec ilike ch w).1 = .ok data → ∀ x ∈ data, P x)
    (hn : listing select count page limit countFirst p = some aw) (hdata : ∀ data, p = .count data → ∀ x ∈ data, P x)
    {r : Except Err aw.α} (hr : ∀ v, r = .ok v → ∃ ch, (aw.call.exec ilike ch w).1 = .ok v) :
    (∀ data, aw.resume r = .count data → ∀ x ∈ data, P x) ∧ ∀ result, aw.resume r = .returned result → ∀ x ∈ result.data, P x := by
  cases p with
  | findAllByUser =>
    cases countFirst with
    | true =>
      cases hn
      cases r <;> exact ⟨nofun, nofun⟩
    | false =>
      cases hn
      cases r with
      | error e => exact ⟨nofun, nofun⟩
      | ok data =>
        refine ⟨fun data' he => ?_, nofun⟩
        cases he
        obtain ⟨ch, hs⟩ := hr data rfl
        exact hselect ch data hs
  | count data =>
    cases hn
    cases r with
    | error e => exact ⟨nofun, nofun⟩
    | ok total =>
      refine ⟨nofun, fun result he => ?_⟩
      cases he
      exact hdata data rfl
  | select total =>
    cases hn
    cases r with
    | error e => exact ⟨nofun, nofun⟩
    | ok data =>
      refine ⟨nofun, fun result he => ?_⟩
      cases he
      obtain ⟨ch, hs⟩ := hr data rfl
      exact hselect ch data hs
  | returned | threw => cases hn

/-- A call goes on holding rows of its user. -/
theorem readAnswers_resume (ilike : String → String → Bool) (w : World) {countFirst : Bool} {t : ReadTask}
    {aw : ReadAwait ReadTask} (hn : t.next countFirst = some aw) (h : t.Answers) {r : Except Err aw.α}
    (hr : ∀ v, r = .ok v → ∃ ch, (aw.call.exec ilike ch w).1 = .ok v) : (aw.resume r).Answers := by
  cases t with
  | listFiles userId opts p =>
    obtain ⟨aw, hp, rfl⟩ := Option.map_eq_some_iff.1 hn
    obtain ⟨hcount, hreturned⟩ := listing_answers (P := fun file : FileRow => file.userId = userId)
      (fun _ data hd => by exact selectByUser_files hd) hp (fun data he => by cases he; exact h) hr
    dsimp only [ReadAwait.map]
    generalize aw.resume r = q at hcount hreturned
    cases q with
    | count data => exact hcount data rfl
    | returned result => exact hreturned result rfl
    | findAllByUser | select | threw => trivial
  | listJobs userId opts p =>
    obtain ⟨aw, hp, rfl⟩ := Option.map_eq_some_iff.1 hn
    obtain ⟨hcount, hreturned⟩ := listing_answers (P := fun job : JobRow => job.userId = userId)
      (fun _ data hd => by exact selectByUser_jobs hd) hp (fun data he => by cases he; exact h) hr
    dsimp only [ReadAwait.map]
    generalize aw.resume r = q at hcount hreturned
    cases q with
    | count data => exact hcount data rfl
    | returned result => exact hreturned result rfl
    | findAllByUser | select | threw => trivial
  | findFile userId fileId p =>
    obtain ⟨aw, hp, rfl⟩ := Option.map_eq_some_iff.1 hn
    cases p with
    | findById =>
      cases hp
      rcases r with e | _ | file
      · trivial
      · trivial
      · obtain ⟨ch, hfound⟩ := hr _ rfl
        dsimp only [ReadAwait.map]
        split
        · trivial
        · exact (findFile_some (Except.ok.inj hfound)).2.2
    | returned | threw => cases hp
  | downloadFile userId fileId p =>
    obtain ⟨aw, hp, rfl⟩ := Option.map_eq_some_iff.1 hn
    cases p with
    | findById =>
      cases hp
      rcases r with e | _ | file
      · trivial
      · trivial
      · obtain ⟨ch, hfound⟩ := hr _ rfl
        dsimp only [ReadAwait.map]
        split
        · trivial
        · exact (findFile_some (Except.ok.inj hfound)).2.2
    | getObject file =>
      cases hp
      cases r with
      | error e => trivial
      | ok stream => exact h
    | returned | threw => cases hp
  | findJob userId jobId p =>
    obtain ⟨aw, hp, rfl⟩ := Option.map_eq_some_iff.1 hn
    cases p with
    | findById =>
      cases hp
      rcases r with e | _ | job
      · trivial
      · trivial
      · obtain ⟨ch, hfound⟩ := hr _ rfl
        exact (findJob_some (Except.ok.inj hfound)).2.2
    | returned | threw => cases hp

/-- A call serves one request to its end. -/
theorem readRequest_resume {countFirst : Bool} {t : ReadTask} {aw : ReadAwait ReadTask} (hn : t.next countFirst = some aw)
    (r : Except Err aw.α) : (aw.resume r).request = t.request := by
  cases t <;> (obtain ⟨aw, -, rfl⟩ := Option.map_eq_some_iff.1 hn) <;> rfl

/-- A call begins with nothing, and serves the request that started it. -/
theorem readAnswers_task (r : ReadRequest) : r.task.Answers ∧ r.task.request = r := by
  cases r <;> exact ⟨trivial, rfl⟩

/-! ## The calls of the platform -/

/-- What a call of the platform holds and returns: rows of the user it serves. -/
def Task.Answers : Task → Prop
  | .confirmUpload userId _ (.statObject file) | .confirmUpload userId _ (.markReady file)
  | .confirmUpload userId _ (.returned file) => file.userId = userId
  | .createJob userId _ _ _ (.add job) | .createJob userId _ _ _ (.returned job) => job.userId = userId
  | _ => True

/-- A task goes on holding rows of its user. -/
theorem answers_moves {cfg : Config} {s : System} {b : Action} {i : Nat} {t t' : Task} (hm : TaskMoves cfg s b i t t')
    (h : t.Answers) : t'.Answers := by
  cases hm with
  | waits => exact h
  | @confirmUpload userId fileId p p' aw r pick hn hr he =>
    subst he
    cases p with
    | findById =>
      cases hn
      rcases r with e | _ | file
      · trivial
      · trivial
      · obtain ⟨ch, -, hfound⟩ := hr.of_ok
        have hown : file.userId = userId := (findFile_some (Except.ok.inj hfound)).2.2
        dsimp only
        split
        · exact hown
        · split
          · trivial
          · exact hown
    | statObject file =>
      cases hn
      cases r with
      | error e => trivial
      | ok stat =>
        dsimp only
        split
        · trivial
        · exact h
    | markReady file =>
      cases hn
      rcases r with e | _ | updated
      · trivial
      · trivial
      · obtain ⟨ch, -, hupdated⟩ := hr.of_ok
        obtain ⟨old, -, -, hown, -, hnew⟩ := markReady_some (Except.ok.inj hupdated)
        rw [hnew]
        exact hown
    | returned | threw => cases hn
  | @createJob userId fileId type options p p' aw r pick hn hr he =>
    subst he
    cases p with
    | findFile =>
      cases hn
      rcases r with e | _ | file
      · trivial
      · trivial
      · dsimp only
        split
        · trivial
        · split <;> trivial
    | create =>
      cases hn
      cases r with
      | error e => trivial
      | ok job =>
        obtain ⟨ch, -, hcreated⟩ := hr.of_ok
        rcases createJob_inserts ch s.world
          { userId := userId, fileId := fileId, type := type, status := .pending, progress := 0 } with ⟨e, he⟩ | ⟨jobs, -, -, -, he⟩
        · rw [he] at hcreated
          cases hcreated
        · rw [he] at hcreated
          cases hcreated
          rfl
    | add job =>
      cases hn
      cases r with
      | error e => trivial
      | ok v => exact h
    | returned | threw => cases hn
  | createUploadUrl | deleteFile | cancelJob | attempt | settled | failedListener | report | sweep => trivial

/-- A task begins with nothing. -/
theorem answers_spawns {cfg : Config} {s : System} {b : Action} {t : Task} (h : Spawns cfg s b t) : t.Answers := by
  cases h <;> trivial

/-- The calls of the state hold and return what is their users'. -/
structure CallsAnswer (env : ServerEnv) (c : Tenants) : Prop where
  calls : ∀ t ∈ c.calls, t.Answers env c.world.db.users
  reads : ∀ t ∈ c.reads, t.Answers
  tasks : ∀ t ∈ c.system.tasks, t.Answers

/-- In every reachable state. -/
theorem callsAnswer {env : ServerEnv} {ok : Tenants → TenantAction → Prop} (h : (tenants env.env).Reach ok c) : CallsAnswer env c := by
  refine h.invariant (I := CallsAnswer env) ?_ (fun c a c' _ hI _ hs => ?_)
  · rintro c rfl
    exact ⟨fun t ht => (nomatch ht), fun t ht => (nomatch ht), fun t ht => (nomatch ht)⟩
  have h := tenants_step_cases hs
  refine ⟨fun t' ht' => ?_, fun t' ht' => ?_, fun t' ht' => ?_⟩
  · obtain ⟨i, hi⟩ := List.getElem?_of_mem ht'
    rcases callMoves_back h hi with ⟨t, ht, hm⟩ | ⟨r, rfl, -, rfl⟩
    · have hold := (hI.calls t (List.mem_of_getElem? ht)).mono (fun u hu => hasUser_kept h hu)
      cases hm with
      | waits => exact hold
      | @exec aw ch ha hn =>
        refine answers_resume hn hold (fun v hv => ?_)
        subst ha
        cases h with
        | exec ht₀ hn₀ =>
          rw [ht] at ht₀
          cases ht₀
          rw [hn] at hn₀
          cases hn₀
          exact replied_exec aw.call hv
      | @reject aw e ha hn => exact answers_resume hn hold (fun v hv => nomatch hv)
    · exact (answers_task env _ _ r).1
  · obtain ⟨i, hi⟩ := List.getElem?_of_mem ht'
    rcases readMoves_back h hi with ⟨t, ht, hm⟩ | ⟨r, rfl, -, rfl⟩
    · have hold := hI.reads t (List.mem_of_getElem? ht)
      cases hm with
      | waits => exact hold
      | @settles aw r countFirst hn hr =>
        refine readAnswers_resume env.ilike c.world hn hold (fun v hv => ?_)
        subst hv
        exact hr.of_ok
    · exact (readAnswers_task r).1
  · rcases platform_or_same h with ⟨b, rfl, hb⟩ | ⟨htasks, -⟩
    · obtain ⟨i, hi⟩ := List.getElem?_of_mem ht'
      rcases task_back hb hi with ⟨t, ht, hm⟩ | ⟨-, hsp⟩
      · exact answers_moves hm (hI.tasks t (List.mem_of_getElem? ht))
      · exact answers_spawns hsp
    · exact hI.tasks t' (htasks ▸ ht')

end FileProcessing
