import FileProcessing.Lemmas.Accounts
import FileProcessing.Lemmas.References
import FileProcessing.Tenants

/-!
# The whole database and the platform

`tenants_step_cases` inverts the step. The platform follows every step of the whole: an insert into `users` is a `register`, the id
of an API key is issued like that of a guest session, and the other statements on the accounts change columns the platform does not
read (`mirrored`). So what holds of the files, the jobs, the tasks and the queue of every reachable state of the platform holds of
those of the whole.
-/

namespace FileProcessing

variable {env : Env} {ok : Tenants → TenantAction → Prop} {c c' : Tenants} {a : TenantAction}

/-! ## The step, inverted -/

/-- The steps of the whole, one constructor an action. -/
inductive TenantStepped (env : Env) (c : Tenants) : TenantAction → Tenants → Prop where
  | platform (a : Action) (system : System) (step : System.step env.config c.system a = some system)
      (old : ∀ user, a ≠ .register user) : TenantStepped env c (.platform a) { c with system := system }
  | call (r : AccountRequest) (signed : ∀ userId, r.userId? = some userId → userId ∈ c.world.sessions) :
      TenantStepped env c (.call r) { c with calls := c.calls ++ [r.task env.crypto c.world.now] }
  | exec {i : Nat} {ch : AccountChoice} {t : AccountTask} {aw : AccountAwait AccountTask} (ht : c.calls[i]? = some t)
      (hn : t.next env.crypto env.auth c.world.now ch.random = some aw) :
      TenantStepped env c (.exec i ch)
        { c.setStore (aw.call.exec env.crypto ch c.store).2 with
          calls := c.calls.set i (aw.resume (aw.call.exec env.crypto ch c.store).1) }
  | reject {i : Nat} {e : Err} {t : AccountTask} {aw : AccountAwait AccountTask} (ht : c.calls[i]? = some t)
      (hn : t.next env.crypto env.auth c.world.now 0 = some aw) :
      TenantStepped env c (.reject i e) { c with calls := c.calls.set i (aw.resume (.error e)) }
  | read (r : ReadRequest) (signed : r.userId ∈ c.world.sessions) :
      TenantStepped env c (.read r) { c with reads := c.reads ++ [r.task] }
  | execRead {i : Nat} {countFirst : Bool} {ch : Choice} {t : ReadTask} {aw : ReadAwait ReadTask} (ht : c.reads[i]? = some t)
      (hn : t.next countFirst = some aw) :
      TenantStepped env c (.execRead i countFirst ch)
        { c with reads := c.reads.set i (aw.resume (aw.call.exec env.ilike ch c.world).1) }
  | rejectRead {i : Nat} {countFirst : Bool} {e : Err} {t : ReadTask} {aw : ReadAwait ReadTask} (ht : c.reads[i]? = some t)
      (hn : t.next countFirst = some aw) :
      TenantStepped env c (.rejectRead i countFirst e) { c with reads := c.reads.set i (aw.resume (.error e)) }

/-- The calls that read leave the world as it is. -/
theorem world_of_read {ilike : String → String → Bool} {countFirst : Bool} {t : ReadTask} {aw : ReadAwait ReadTask} (ch : Choice)
    (w : World) (hn : t.next countFirst = some aw) : (aw.call.exec ilike ch w).2 = w := by
  cases t with
  | listFiles u opts p | listJobs u opts p =>
    obtain ⟨aw, haw, rfl⟩ := Option.map_eq_some_iff.1 hn
    cases p with
    | findAllByUser =>
      cases countFirst <;> cases haw <;> rfl
    | count | select => cases haw; rfl
    | returned | threw => cases haw
  | findFile u f p | findJob u f p =>
    obtain ⟨aw, haw, rfl⟩ := Option.map_eq_some_iff.1 hn
    cases p with
    | findById => cases haw; rfl
    | returned | threw => cases haw
  | downloadFile u f p =>
    obtain ⟨aw, haw, rfl⟩ := Option.map_eq_some_iff.1 hn
    cases p with
    | findById => cases haw; rfl
    | getObject file =>
      cases haw
      exact exec_world (Call.getObject file.storagePath) ch w
    | returned | threw => cases haw

/-- A step is one of these. -/
theorem tenants_step_cases (h : (tenants env).step c a = some c') : TenantStepped env c a c' := by
  simp only [tenants] at h
  cases a with
  | platform a =>
    have old : ∀ user, a ≠ .register user := by
      rintro user rfl
      cases h
    have hs : (System.step env.config c.system a).map (fun system => { c with system := system }) = some c' := by
      cases a with
      | register user => cases h
      | _ => exact h
    obtain ⟨system, hsys, rfl⟩ := Option.map_eq_some_iff.1 hs
    exact .platform a system hsys old
  | call r =>
    simp only [Tenants.step, Option.ite_none_right_eq_some, Option.some.injEq] at h
    obtain ⟨signed, rfl⟩ := h
    exact .call r signed
  | exec i ch =>
    simp only [Tenants.step] at h
    split at h
    · cases h
    rename_i t ht
    split at h
    · cases h
    rename_i aw hn
    simp only [Option.some.injEq] at h
    exact h ▸ .exec ht hn
  | reject i e =>
    simp only [Tenants.step] at h
    split at h
    · cases h
    rename_i t ht
    split at h
    · cases h
    rename_i aw hn
    simp only [Option.some.injEq] at h
    exact h ▸ .reject ht hn
  | read r =>
    simp only [Tenants.step, Option.ite_none_right_eq_some, Option.some.injEq] at h
    obtain ⟨signed, rfl⟩ := h
    exact .read r signed
  | execRead i countFirst ch =>
    simp only [Tenants.step] at h
    split at h
    · cases h
    rename_i t ht
    split at h
    · cases h
    rename_i aw hn
    simp only [Option.some.injEq, world_of_read ch c.world hn] at h
    exact h ▸ .execRead ht hn
  | rejectRead i countFirst e =>
    simp only [Tenants.step] at h
    split at h
    · cases h
    rename_i t ht
    split at h
    · cases h
    rename_i aw hn
    simp only [Option.some.injEq] at h
    exact h ▸ .rejectRead ht hn

/-! ## The mirror -/

/-- The world with other accounts. -/
def World.withAccounts (w : World) (users : Table User.id) (sessions : List Uuid) : World := w.setAccounts users w.issued sessions

/-- The system with other accounts. -/
def System.withAccounts (s : System) (users : Table User.id) (sessions : List Uuid) : System :=
  { s with world := s.world.withAccounts users sessions }

/-- What the platform reads of a user. -/
def User.face (user : User) : Uuid × String := (user.id, user.email)

/-- The two tables have the same ids and addresses. -/
def SameFaces (users users' : Table User.id) : Prop := users.rows.map User.face = users'.rows.map User.face

/-- A user of the one table has a face of the other. -/
theorem SameFaces.mem {users users' : Table User.id} (h : SameFaces users users') {x : User} (hx : x ∈ users) :
    ∃ y ∈ users', y.id = x.id ∧ y.email = x.email := by
  have hface : x.face ∈ users.rows.map User.face := List.mem_map_of_mem hx
  rw [h] at hface
  obtain ⟨y, hy, he⟩ := List.mem_map.1 hface
  exact ⟨y, hy, congrArg Prod.fst he, congrArg Prod.snd he⟩

/-- A system of the platform with the tasks, the queue, the objects, the files and the jobs of the whole, its ids and its time; the
users are those of the whole but for the columns the platform does not read, and no session is missing. -/
def Mirrors (c : Tenants) (s : System) : Prop :=
  ∃ users sessions, s = c.system.withAccounts users sessions ∧ SameFaces users c.world.db.users ∧
    ∀ id ∈ c.world.sessions, id ∈ sessions

/-- A call of the platform does the same with other accounts of the same faces. -/
theorem exec_withAccounts {α : Type} (call : Call α) (ch : Choice) {w : World} {users : Table User.id} (sessions : List Uuid)
    (h : SameFaces users w.db.users) :
    call.exec ch (w.withAccounts users sessions) =
      ((call.exec ch w).1, (call.exec ch w).2.withAccounts users sessions) := by
  cases call with
  | createFile data =>
    by_cases hi : ch.id ∈ w.issued
    · simp [Call.exec, World.withAccounts, World.setAccounts, hi]
    by_cases hf : FileRepository.Kept (FileRepository.newRow w.now ch.id data)
    · cases hins : w.db.files.insert (FileRepository.newRow w.now ch.id data) <;>
        simp [Call.exec, World.withAccounts, World.setAccounts, World.issue, FileRepository.create_eq, hi, hf, hins]
    · simp [Call.exec, World.withAccounts, World.setAccounts, FileRepository.create_eq, hi, hf]
  | createJob data =>
    by_cases hi : ch.id ∈ w.issued
    · simp [Call.exec, World.withAccounts, World.setAccounts, hi]
    by_cases hf : JobRepository.Kept (JobRepository.newRow w.now ch.id data) ∧
        w.db.files.rows.any (fun file => file.id = data.fileId) = true
    · cases hins : w.db.jobs.insert (JobRepository.newRow w.now ch.id data) <;>
        simp only [Call.exec, World.withAccounts, World.setAccounts, World.issue, JobRepository.create_eq, if_neg hi, if_pos hf, hins,
          Option.map_some, Option.map_none]
    · simp only [Call.exec, World.withAccounts, World.setAccounts, JobRepository.create_eq, if_neg hi, if_neg hf]
  | updateStatus jobId status extra =>
    have hex : JobRepository.outputExists { w.db with users := users } extra = JobRepository.outputExists w.db extra := rfl
    by_cases hp : ((w.db.jobs.select (fun job => decide (job.id = jobId))).isEmpty || JobRepository.outputExists w.db extra) = true
    · simp only [Call.exec, World.withAccounts, World.setAccounts, JobRepository.updateStatus, hex, if_pos hp]
    · simp only [Call.exec, World.withAccounts, World.setAccounts, JobRepository.updateStatus, hex, if_neg hp]
  | findExpiredGuestFiles before =>
    have hany : ∀ id : Uuid, users.rows.any (fun user => user.id = id) = w.db.users.rows.any (fun user => user.id = id) := by
      intro id
      rw [Bool.eq_iff_iff, List.any_eq_true, List.any_eq_true]
      constructor
      · rintro ⟨x, hx, he⟩
        obtain ⟨y, hy, hid, -⟩ := h.mem hx
        exact ⟨y, hy, decide_eq_true (hid.trans (of_decide_eq_true he))⟩
      · rintro ⟨x, hx, he⟩
        obtain ⟨y, hy, hid, -⟩ := SameFaces.mem h.symm hx
        exact ⟨y, hy, decide_eq_true (hid.trans (of_decide_eq_true he))⟩
    simp only [Call.exec, FileRepository.findExpiredGuestFiles, FileRepository.hasOpenJob, World.withAccounts, World.setAccounts, hany]
  | statObject key | getObject key =>
    cases hb : w.bucket key <;> simp [Call.exec, World.withAccounts, World.setAccounts, hb]
  | _ => rfl

/-- A step of the platform that is no `register` is a step with other accounts of the same faces; a new session is added to both. -/
theorem step_withAccounts {cfg : Config} {s s' : System} {a : Action} {users : Table User.id} {sessions : List Uuid}
    (h : System.step cfg s a = some s') (old : ∀ user, a ≠ .register user) (hf : SameFaces users s.world.db.users)
    (hs : ∀ id ∈ s.world.sessions, id ∈ sessions) :
    ∃ sessions', System.step cfg (s.withAccounts users sessions) a = some (s'.withAccounts users sessions') ∧
      s'.world.db.users = s.world.db.users ∧ ∀ id ∈ s'.world.sessions, id ∈ sessions' := by
  have hst : Stepped cfg s a s' := step_cases h
  cases hst with
  | request r random hr hi => exact ⟨sessions, if_pos ⟨hs _ hr, hi⟩, rfl, hs⟩
  | startSweep kind => exact ⟨sessions, rfl, rfl, hs⟩
  | @exec i pick ch t aw ht hn =>
    obtain ⟨husers, hsessions, -⟩ := frame_apply ch s.world aw.call.effect
    refine ⟨sessions, ?_, husers, fun id hid => hs id (hsessions ▸ hid)⟩
    simp [System.step, System.withAccounts, System.resume, ht, hn, exec_withAccounts aw.call ch sessions hf, exec_world]
  | reject ht hn hfal =>
    exact ⟨sessions, by simp [System.step, System.withAccounts, System.resume, ht, hn, hfal], rfl, hs⟩
  | upload policy size =>
    -- the bounds on the size are not all that a step looks at: the policy must not have expired
    simp only [System.step, Option.ite_none_right_eq_some] at h
    exact ⟨sessions, if_pos h.1, rfl, hs⟩
  | @deliver k job hk hw =>
    have hk' : (s.withAccounts users sessions).world.queue[k]? = some job := hk
    refine ⟨sessions, ?_, rfl, hs⟩
    simp only [System.step, hk', if_pos hw]
    rfl
  | @stall k i job hk ha =>
    have hk' : (s.withAccounts users sessions).world.queue[k]? = some job := hk
    refine ⟨sessions, ?_, rfl, hs⟩
    simp only [System.step, hk', ha]
    rfl
  | @settle i k data p outcome ht ho =>
    have ht' : (s.withAccounts users sessions).tasks[i]? = some (.attempt k data p false) := ht
    refine ⟨sessions, ?_, rfl, hs⟩
    simp only [System.step, ht', ho]
    rfl
  | guestSession id hi =>
    refine ⟨id :: sessions, if_neg hi, rfl, fun x hx => ?_⟩
    rcases List.mem_cons.1 hx with rfl | hx
    · exact List.mem_cons_self
    · exact List.mem_cons_of_mem _ (hs x hx)
  | register user => exact absurd rfl (old user)
  | tick ms => exact ⟨sessions, rfl, rfl, hs⟩

/-- An update of the users that keeps their faces. -/
theorem sameFaces_update {users : Table User.id} {p : User → Bool} {f : User → User} {hf : ∀ user, (f user).id = user.id}
    (h : ∀ user, (f user).face = user.face) : SameFaces users (users.update p f hf) := by
  unfold SameFaces Table.update
  rw [List.map_map]
  refine List.map_congr_left (fun user _ => ?_)
  by_cases hp : p user = true <;> simp [hp, h]

/-- What a call of the two services does to what the platform reads: it inserts a user, or issues an id, or leaves it alone. -/
inductive AccountsMove (a : AccountStore) : AccountStore → Prop where
  | registers (user : User) (users : Table User.id) (fresh : user.id ∉ a.issued) (email : ∀ x ∈ a.users, x.email ≠ user.email)
      (inserted : a.users.insert user = some users) :
      AccountsMove a { a with users := users, issued := user.id :: a.issued, sessions := user.id :: a.sessions }
  | issues (id : Uuid) (apiKeys : Table ApiKeyRow.id) (fresh : id ∉ a.issued) :
      AccountsMove a { a with apiKeys := apiKeys, issued := id :: a.issued }
  | keeps (users : Table User.id) (apiKeys : Table ApiKeyRow.id) (faces : SameFaces a.users users) :
      AccountsMove a { a with users := users, apiKeys := apiKeys }

/-- Every call is accounted for. -/
theorem accountsMove {α : Type} (crypto : Crypto) (call : AccountCall α) (ch : AccountChoice) (a : AccountStore) :
    AccountsMove a (call.exec crypto ch a).2 := by
  cases call with
  | createUser email passwordHash =>
    rcases @exec_createUser crypto ch a email passwordHash with he | ⟨users, he, hcreate, hi⟩
    · rw [he]
      exact .keeps a.users a.apiKeys rfl
    · obtain ⟨-, hins, hmail⟩ := insert_of_create hcreate
      rw [he]
      exact .registers (UserRepository.newRow a.now ch.id email passwordHash) users hi hmail hins
  | setRefreshTokenHash userId hash =>
    exact .keeps (UserRepository.setRefreshTokenHash a.users a.now userId hash) a.apiKeys (sameFaces_update (fun _ => rfl))
  | updatePassword userId passwordHash =>
    exact .keeps (UserRepository.updatePassword a.users a.now userId passwordHash) a.apiKeys (sameFaces_update (fun _ => rfl))
  | createKey data =>
    rcases @exec_createKey crypto ch a data with he | ⟨apiKeys, he, -, hi⟩
    · rw [he]
      exact .keeps a.users a.apiKeys rfl
    · rw [he]
      exact .issues ch.id apiKeys hi
  | deleteById id userId => exact .keeps a.users _ rfl
  | findByEmail | findById | bcryptHash | bcryptCompare | findByUserId | countByUserId => exact .keeps a.users a.apiKeys rfl

/-- An insert into the one table is an insert into the other. -/
theorem insert_withFaces {users users' before : Table User.id} {user : User} (hf : SameFaces before users)
    (h : users.insert user = some users') : ∃ after, before.insert user = some after ∧ SameFaces after users' := by
  have hfree : ∀ x ∈ before, x.id ≠ user.id := by
    intro x hx he
    obtain ⟨y, hy, hid, -⟩ := hf.mem hx
    exact Table.insert_key_ne h y hy (hid.trans he)
  obtain ⟨after, hafter⟩ := Table.insert_of_key_ne hfree
  refine ⟨after, hafter, ?_⟩
  unfold SameFaces at hf ⊢
  rw [Table.rows_insert hafter, Table.rows_insert h, List.map_append, List.map_append, hf]

/-- The platform follows a call of the two services. -/
theorem mirrors_store {s : System} {store : AccountStore} (h : Mirrors c s) (hstore : AccountsMove c.store store)
    (calls : List AccountTask) :
    ∃ s', (platform env.config).Steps Lts.Free s s' ∧ Mirrors { c.setStore store with calls := calls } s' := by
  obtain ⟨users, sessions, rfl, hf, hs⟩ := h
  cases hstore with
  | registers user users' hi hmail hins =>
    obtain ⟨after, hafter, hfaces⟩ := insert_withFaces hf hins
    have hfree : ¬(user.id ∈ c.world.issued ∨ users.rows.any (fun x => x.email = user.email) = true) := by
      rintro (hid | hany)
      · exact hi hid
      · obtain ⟨x, hx, he⟩ := List.any_eq_true.1 hany
        obtain ⟨y, hy, -, hmail'⟩ := hf.mem hx
        exact hmail y hy (hmail'.trans (of_decide_eq_true he))
    refine ⟨_, .single (.register user) trivial ?_, after, user.id :: sessions, rfl, hfaces, fun x hx => ?_⟩
    · refine (if_neg hfree).trans ?_
      show Option.map _ (users.insert user) = _
      rw [hafter]
      rfl
    · rcases List.mem_cons.1 hx with rfl | hx
      · exact List.mem_cons_self
      · exact List.mem_cons_of_mem _ (hs x hx)
  | issues id apiKeys hi =>
    refine ⟨_, .single (.guestSession id) trivial (if_neg hi), users, id :: sessions, rfl, hf, fun x hx => ?_⟩
    exact List.mem_cons_of_mem _ (hs x hx)
  | keeps users' apiKeys hfaces => exact ⟨_, .refl, users, sessions, rfl, hf.trans hfaces, hs⟩

/-- The platform follows every step of the whole. -/
theorem mirrors_step {s : System} (h : TenantStepped env c a c') (hm : Mirrors c s) :
    ∃ s', (platform env.config).Steps Lts.Free s s' ∧ Mirrors c' s' := by
  cases h with
  | platform a system hstep old =>
    obtain ⟨users, sessions, rfl, hf, hs⟩ := hm
    obtain ⟨sessions', hstep', husers, hs'⟩ := step_withAccounts hstep old hf hs
    exact ⟨_, .single a trivial hstep', users, sessions', rfl, hf.trans (congrArg _ (congrArg _ husers.symm)), hs'⟩
  | @exec i ch t aw ht hn => exact mirrors_store hm (accountsMove env.crypto aw.call ch c.store) _
  | call | reject | read | execRead | rejectRead => exact ⟨s, .refl, hm⟩

/-- Every reachable state of the whole has a reachable state of the platform that mirrors it. -/
theorem mirrored (h : (tenants env).Reach ok c) : ∃ s, (platform env.config).Reach Lts.Free s ∧ Mirrors c s := by
  refine h.simulate ?_ (fun c a c' s _ _ hm _ hs => mirrors_step (tenants_step_cases hs) hm)
  rintro c rfl
  exact ⟨System.empty, rfl, Table.empty, [], rfl, rfl, fun _ hx => hx⟩

/-! ## The ids of the rows -/

/-- The rows of `files` and `jobs` have ids that were issued. -/
structure RowsIssued (w : World) : Prop where
  files : ∀ r ∈ w.db.files, r.id ∈ w.issued
  jobs : ∀ r ∈ w.db.jobs, r.id ∈ w.issued

/-- In every reachable state. -/
theorem rowsIssued (h : (tenants env).Reach ok c) : RowsIssued c.world := by
  obtain ⟨s, hs, users, sessions, rfl, -, -⟩ := mirrored h
  exact ⟨(issued hs).files, (issued hs).jobs⟩

/-- The rows of `api_keys` have ids that were issued. -/
def KeysIssued (c : Tenants) : Prop := ∀ row ∈ c.apiKeys, row.id ∈ c.world.issued

/-- A call of the two services keeps the ids of the keys issued. -/
theorem keysIssued_exec {α : Type} (crypto : Crypto) (call : AccountCall α) (ch : AccountChoice) {a : AccountStore}
    (h : ∀ row ∈ a.apiKeys, row.id ∈ a.issued) :
    ∀ row ∈ (call.exec crypto ch a).2.apiKeys, row.id ∈ (call.exec crypto ch a).2.issued := by
  cases call with
  | createUser email passwordHash =>
    rcases @exec_createUser crypto ch a email passwordHash with he | ⟨users, he, -, -⟩
    · rw [he]
      exact h
    · rw [he]
      exact fun row hrow => List.mem_cons_of_mem _ (h row hrow)
  | createKey data =>
    rcases @exec_createKey crypto ch a data with he | ⟨apiKeys, he, hins, -⟩
    · rw [he]
      exact h
    · rw [he]
      intro row hrow
      rcases (Table.insert_eq_some hins row).1 hrow with hrow | rfl
      · exact List.mem_cons_of_mem _ (h row hrow)
      · exact List.mem_cons_self
  | deleteById id userId => exact fun row hrow => h row (Table.mem_delete.1 hrow).1
  | setRefreshTokenHash | updatePassword | findByEmail | findById | bcryptHash | bcryptCompare | findByUserId | countByUserId => exact h

/-- In every reachable state. -/
theorem keysIssued (h : (tenants env).Reach ok c) : KeysIssued c := by
  refine h.invariant ?_ (fun c a c' _ hI _ hs => ?_)
  · rintro c rfl row hrow
    exact absurd hrow (Table.not_mem_empty row)
  · cases tenants_step_cases hs with
    | platform a system hstep => exact fun row hrow => issued_step (step_cases hstep) (hI row hrow)
    | @exec i ch t aw ht hn => exact keysIssued_exec env.crypto aw.call ch hI
    | call | reject | read | execRead | rejectRead => exact hI

/-! ## The calls on the accounts, step by step -/

/-- What a step makes of call `i`. -/
inductive CallMoves (env : Env) (c : Tenants) (a : TenantAction) (i : Nat) : AccountTask → AccountTask → Prop where
  | waits (t : AccountTask) (hexec : ∀ ch, a ≠ .exec i ch) (hreject : ∀ e, a ≠ .reject i e) : CallMoves env c a i t t
  | exec {t : AccountTask} {aw : AccountAwait AccountTask} (ch : AccountChoice) (ha : a = .exec i ch)
      (hn : t.next env.crypto env.auth c.world.now ch.random = some aw) :
      CallMoves env c a i t (aw.resume (aw.call.exec env.crypto ch c.store).1)
  | reject {t : AccountTask} {aw : AccountAwait AccountTask} (e : Err) (ha : a = .reject i e)
      (hn : t.next env.crypto env.auth c.world.now 0 = some aw) : CallMoves env c a i t (aw.resume (.error e))

/-- A call stays in its place. -/
theorem callMoves_forward (h : TenantStepped env c a c') {i : Nat} {t : AccountTask} (hi : c.calls[i]? = some t) :
    ∃ t', c'.calls[i]? = some t' ∧ CallMoves env c a i t t' := by
  have hlt := (List.getElem?_eq_some_iff.1 hi).1
  cases h with
  | call r signed =>
    exact ⟨t, by rw [List.getElem?_append_left hlt, hi], .waits t (fun ch he => nomatch he) (fun e he => nomatch he)⟩
  | @exec j ch t₀ aw ht hn =>
    by_cases hij : i = j
    · subst hij
      cases hi.symm.trans ht
      exact ⟨_, by simp [hlt], .exec ch rfl hn⟩
    · refine ⟨t, by rw [List.getElem?_set_ne (Ne.symm hij), hi], .waits t (fun ch he => ?_) (fun e he => nomatch he)⟩
      cases he
      exact hij rfl
  | @reject j e t₀ aw ht hn =>
    by_cases hij : i = j
    · subst hij
      cases hi.symm.trans ht
      exact ⟨_, by simp [hlt], .reject e rfl hn⟩
    · refine ⟨t, by rw [List.getElem?_set_ne (Ne.symm hij), hi], .waits t (fun ch he => nomatch he) (fun e he => ?_)⟩
      cases he
      exact hij rfl
  | platform | read | execRead | rejectRead => exact ⟨t, hi, .waits t (fun ch he => nomatch he) (fun e he => nomatch he)⟩

/-- The number of calls after a step. -/
theorem length_calls (h : TenantStepped env c a c') :
    c'.calls.length = c.calls.length ∨ ∃ r, a = .call r ∧ c'.calls = c.calls ++ [r.task env.crypto c.world.now] := by
  cases h with
  | call r => exact Or.inr ⟨r, rfl, rfl⟩
  | exec | reject => exact Or.inl (List.length_set ..)
  | platform | read | execRead | rejectRead => exact Or.inl rfl

/-- A call was one before the step, or has just been made. -/
theorem callMoves_back (h : TenantStepped env c a c') {i : Nat} {t' : AccountTask} (hi : c'.calls[i]? = some t') :
    (∃ t, c.calls[i]? = some t ∧ CallMoves env c a i t t') ∨
      ∃ r, a = .call r ∧ i = c.calls.length ∧ t' = r.task env.crypto c.world.now := by
  by_cases hlt : i < c.calls.length
  · obtain ⟨t'', h1, hm⟩ := callMoves_forward h (List.getElem?_eq_getElem hlt)
    cases hi.symm.trans h1
    exact Or.inl ⟨_, List.getElem?_eq_getElem hlt, hm⟩
  · have hlt' := (List.getElem?_eq_some_iff.1 hi).1
    rcases length_calls h with hlen | ⟨r, ha, hcalls⟩
    · omega
    · rw [hcalls, List.getElem?_append_right (by omega)] at hi
      rw [hcalls, List.length_append, List.length_singleton] at hlt'
      exact Or.inr ⟨r, ha, by omega, (List.mem_singleton.1 (List.mem_of_getElem? hi))⟩

/-- The e-mail of the row a call inserts. -/
def AccountCall.creates : {α : Type} → AccountCall α → Option String
  | _, .createUser email _ => some email
  | _, _ => none

/-- Only `register` inserts a row of `users`. -/
theorem creator_registers {crypto : Crypto} {cfg : AuthServiceConfig} {now : Time} {random : BitVec 192} {t : AccountTask}
    {aw : AccountAwait AccountTask} {email : String} (hn : t.next crypto cfg now random = some aw)
    (hc : aw.call.creates = some email) : ∃ password hash, t = .register email password (.create hash) := by
  cases t with
  | register email' password p =>
    obtain ⟨aw, hp, rfl⟩ := Option.map_eq_some_iff.1 hn
    cases p with
    | create hash =>
      cases hp
      cases hc
      exact ⟨password, hash, rfl⟩
    | findByEmail | hash | setRefreshTokenHash =>
      cases hp
      cases hc
    | returned | threw => cases hp
  | login email' password p | refresh token p | logout u p | me u p | changePassword u cur new p | listKeys u p | createKey u p
  | revokeKey u k p =>
    obtain ⟨aw, hp, rfl⟩ := Option.map_eq_some_iff.1 hn
    cases p <;> cases hp <;> cases hc

/-- A call that inserts no row of `users` keeps the ids and the e-mails. -/
theorem faces_of_creates {α : Type} {crypto : Crypto} {call : AccountCall α} (ch : AccountChoice) (a : AccountStore)
    (hc : call.creates = none) : SameFaces a.users (call.exec crypto ch a).2.users := by
  cases call with
  | createUser => cases hc
  | setRefreshTokenHash userId hash =>
    have hfaces : SameFaces a.users (UserRepository.setRefreshTokenHash a.users a.now userId hash) := sameFaces_update (fun _ => rfl)
    exact hfaces
  | updatePassword userId passwordHash =>
    have hfaces : SameFaces a.users (UserRepository.updatePassword a.users a.now userId passwordHash) := sameFaces_update (fun _ => rfl)
    exact hfaces
  | createKey data =>
    rcases @exec_createKey crypto ch a data with he | ⟨apiKeys, he, -⟩ <;> rw [he] <;> rfl
  | deleteById | findByEmail | findById | bcryptHash | bcryptCompare | findByUserId | countByUserId => rfl

/-- An insert that breaks no constraint succeeds. -/
theorem createUser_succeeds {crypto : Crypto} {ch : AccountChoice} {a : AccountStore} {email : String} (hash : String)
    (hlength : email.length ≤ 255) (hplain : nul ∉ email.toList) (hmail : ∀ x ∈ a.users, x.email ≠ email)
    (hids : ∀ x ∈ a.users, x.id ∈ a.issued) (hfresh : ch.id ∉ a.issued) :
    ((AccountCall.createUser email hash).exec crypto ch a).1 = .ok (UserRepository.newRow a.now ch.id email hash) := by
  obtain ⟨users, hins⟩ := Table.insert_of_key_ne (t := a.users) (r := UserRepository.newRow a.now ch.id email hash)
    (fun x hx he => hfresh ((show x.id = ch.id from he) ▸ hids x hx))
  have hnone : ¬ a.users.rows.any (fun user => user.email = email) = true := by
    simpa [List.any_eq_true] using fun x (hx : x ∈ a.users.rows) => hmail x hx
  have hcolumn : varcharIn 255 email = some email := varcharIn_self.2 ⟨hplain, hlength⟩
  simp [AccountCall.exec, hfresh, UserRepository.create, hcolumn, hins, hnone]

/-- An id that has been issued stays issued. -/
theorem issued_kept (h : TenantStepped env c a c') {id : Uuid} (hid : id ∈ c.world.issued) : id ∈ c'.world.issued := by
  cases h with
  | platform a system step old => exact issued_step (step_cases step) hid
  | @exec i ch t aw ht hn =>
    have hmove := accountsMove env.crypto aw.call ch c.store
    generalize (aw.call.exec env.crypto ch c.store).2 = store at hmove
    cases hmove with
    | registers | issues => exact List.mem_cons_of_mem _ hid
    | keeps => exact hid
  | call | reject | read | execRead | rejectRead => exact hid

/-- The users after a step: the same ids and e-mails, or one row more, which a `register` has inserted. -/
theorem users_step (h : TenantStepped env c a c') : SameFaces c.world.db.users c'.world.db.users ∨
    ∃ i ch email password hash, a = .exec i ch ∧ c.calls[i]? = some (.register email password (.create hash)) ∧
      ((AccountCall.createUser email hash).exec env.crypto ch c.store).1 =
        .ok (UserRepository.newRow c.world.now ch.id email hash) ∧
      c.world.db.users.insert (UserRepository.newRow c.world.now ch.id email hash) = some c'.world.db.users ∧
      (∀ x ∈ c.world.db.users, x.email ≠ email) ∧ ch.id ∉ c.world.issued ∧ ch.id ∈ c'.world.issued := by
  cases h with
  | platform a system step old =>
    obtain ⟨-, -, husers, -⟩ := step_withAccounts step old rfl (fun id hid => hid)
    exact Or.inl (congrArg (fun users : Table User.id => users.rows.map User.face) husers.symm)
  | @exec i ch t aw ht hn =>
    cases hc : aw.call.creates with
    | none => exact Or.inl (faces_of_creates ch c.store hc)
    | some email =>
      obtain ⟨password, hash, rfl⟩ := creator_registers hn hc
      cases hn
      dsimp only [AccountAwait.map]
      rcases @exec_createUser env.crypto ch c.store email hash with he | ⟨users, he, hcreate, hfresh⟩
      · rw [he]
        exact Or.inl rfl
      · rw [he]
        obtain ⟨-, hins, hmail⟩ := insert_of_create hcreate
        exact Or.inr ⟨i, ch, email, password, hash, rfl, ht, congrArg Prod.fst he, hins, hmail, hfresh, List.mem_cons_self⟩
  | call | reject | read | execRead | rejectRead => exact Or.inl rfl

/-- The id of every user has been issued. -/
theorem usersIssued (h : (tenants env).Reach ok c) : ∀ user ∈ c.world.db.users, user.id ∈ c.world.issued := by
  refine h.invariant (I := fun c => ∀ user ∈ c.world.db.users, user.id ∈ c.world.issued) ?_ ?_
  · rintro c rfl user hmem
    exact absurd hmem (Table.not_mem_empty user)
  · intro c a c' _ hI _ hs user hmem
    have h := tenants_step_cases hs
    rcases users_step h with hfaces | ⟨i, ch, email, password, hash, -, -, -, hins, -, -, hnew⟩
    · obtain ⟨old, hold, hid, -⟩ := SameFaces.mem (Eq.symm hfaces) hmem
      exact hid ▸ issued_kept h (hI old hold)
    · rcases (Table.insert_eq_some hins user).1 hmem with hold | rfl
      · exact issued_kept h (hI user hold)
      · exact hnew

/-! ## The tables of the platform, and the calls that read -/

/-- A step is one of the platform, or leaves the tasks, the tables `files` and `jobs` and the objects alone. -/
theorem platform_or_same (h : TenantStepped env c a c') :
    (∃ b, a = .platform b ∧ Stepped env.config c.system b c'.system) ∨
      (c'.system.tasks = c.system.tasks ∧ c'.world.db.files = c.world.db.files ∧ c'.world.db.jobs = c.world.db.jobs ∧
        c'.world.bucket = c.world.bucket) := by
  cases h with
  | platform b system step => exact Or.inl ⟨b, rfl, step_cases step⟩
  | call | exec | reject | read | execRead | rejectRead => exact Or.inr ⟨rfl, rfl, rfl, rfl⟩

/-- The reply with which a call settles in a step. -/
inductive ReadSettles (env : Env) (c : Tenants) (i : Nat) (countFirst : Bool) :
    TenantAction → {α : Type} → ReadCall α → Except Err α → Prop where
  | exec (ch : Choice) {α : Type} (call : ReadCall α) :
      ReadSettles env c i countFirst (.execRead i countFirst ch) call (call.exec env.ilike ch c.world).1
  | reject (e : Err) {α : Type} (call : ReadCall α) : ReadSettles env c i countFirst (.rejectRead i countFirst e) call (.error e)

/-- A call that returned was executed. -/
theorem ReadSettles.of_ok {i : Nat} {countFirst : Bool} {α : Type} {call : ReadCall α} {v : α}
    (h : ReadSettles env c i countFirst a call (.ok v)) : ∃ ch, (call.exec env.ilike ch c.world).1 = .ok v := by
  generalize hr : Except.ok v = r at h
  cases h with
  | exec ch => exact ⟨ch, rfl⟩
  | reject => cases hr

/-- A call that threw failed in transit, or where it was executed. -/
theorem ReadSettles.of_error {i : Nat} {countFirst : Bool} {α : Type} {call : ReadCall α} {e : Err}
    (h : ReadSettles env c i countFirst a call (.error e)) :
    a = .rejectRead i countFirst e ∨ ∃ ch, (call.exec env.ilike ch c.world).1 = .error e := by
  generalize hr : Except.error e = r at h
  cases h with
  | exec ch => exact Or.inr ⟨ch, rfl⟩
  | reject e' =>
    cases hr
    exact Or.inl rfl

/-- What a step makes of call `i` of those that read. -/
inductive ReadMoves (env : Env) (c : Tenants) (a : TenantAction) (i : Nat) : ReadTask → ReadTask → Prop where
  | waits (t : ReadTask) : ReadMoves env c a i t t
  | settles {t : ReadTask} {aw : ReadAwait ReadTask} {r : Except Err aw.α} (countFirst : Bool) (hn : t.next countFirst = some aw)
      (hr : ReadSettles env c i countFirst a aw.call r) : ReadMoves env c a i t (aw.resume r)

/-- A call that reads was one before the step, or has just been made. -/
theorem readMoves_back (h : TenantStepped env c a c') {i : Nat} {t' : ReadTask} (hi : c'.reads[i]? = some t') :
    (∃ t, c.reads[i]? = some t ∧ ReadMoves env c a i t t') ∨ ∃ r, a = .read r ∧ i = c.reads.length ∧ t' = r.task := by
  cases h with
  | read r signed =>
    by_cases hlt : i < c.reads.length
    · exact Or.inl ⟨t', (List.getElem?_append_left hlt).symm.trans hi, .waits t'⟩
    · have hlen : i < (c.reads ++ [r.task]).length := (List.getElem?_eq_some_iff.1 hi).1
      rw [List.length_append, List.length_singleton] at hlen
      rw [List.getElem?_append_right (by omega)] at hi
      exact Or.inr ⟨r, rfl, by omega, List.mem_singleton.1 (List.mem_of_getElem? hi)⟩
  | @execRead j countFirst ch t aw ht hn =>
    by_cases hij : i = j
    · subst hij
      rw [List.getElem?_set_self (List.getElem?_eq_some_iff.1 ht).1] at hi
      cases hi
      exact Or.inl ⟨t, ht, .settles countFirst hn (.exec ch aw.call)⟩
    · rw [List.getElem?_set_ne (Ne.symm hij)] at hi
      exact Or.inl ⟨t', hi, .waits t'⟩
  | @rejectRead j countFirst e t aw ht hn =>
    by_cases hij : i = j
    · subst hij
      rw [List.getElem?_set_self (List.getElem?_eq_some_iff.1 ht).1] at hi
      cases hi
      exact Or.inl ⟨t, ht, .settles countFirst hn (.reject e aw.call)⟩
    · rw [List.getElem?_set_ne (Ne.symm hij)] at hi
      exact Or.inl ⟨t', hi, .waits t'⟩
  | platform | call | exec | reject => exact Or.inl ⟨t', hi, .waits t'⟩

end FileProcessing
