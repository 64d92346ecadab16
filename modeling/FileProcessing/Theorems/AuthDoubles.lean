import FileProcessing.Api.AuthTests
import FileProcessing.Lemmas.Answers

/-!
# What the tests of `AuthService` say of the database

The double of `IUserRepository` has no unique address. A test that awaits each call before it makes the next cannot tell: `register`
has asked for the address, and nobody has taken it since. So whatever such a test observes on the double it observes on the database,
call by call. A test with two calls in progress can tell.
-/

namespace FileProcessing

open AuthService

/-- Every script runs on the double as it does on the database: either runs through when the other does, and every call has come to the
same point, with the same result or error. -/
def TestsAgree (crypto : Crypto) (cfg : AuthServiceConfig) (overlapping : Bool) : Prop :=
  ∀ script, ((bench (onDatabase crypto) AccountStore.empty crypto cfg overlapping).run ⟨AccountStore.empty, []⟩ script).map Bench.tasks =
    ((bench (inMemory crypto) TestStore.empty crypto cfg overlapping).run ⟨TestStore.empty, []⟩ script).map Bench.tasks

variable {crypto : Crypto} {cfg : AuthServiceConfig} {a a' : Bench AccountStore} {d : Bench TestStore}

/-! ## One call -/

/-- The double that holds the rows of the table. -/
def TestStore.of (a : AccountStore) : TestStore := ⟨⟨OrderedMap.ofTable a.users⟩, a.issued, a.now⟩

/-- The call is one the double answers as the database does. -/
def AccountCall.Mirrored (a : AccountStore) : {α : Type} → AccountCall α → Prop
  | _, .findByEmail email => nul ∉ email.toList
  | _, .createUser email _ => varcharIn 255 email = some email ∧ ∀ user ∈ a.users, user.email ≠ email
  | _, .findByUserId _ | _, .countByUserId _ | _, .createKey _ | _, .deleteById _ _ => False
  | _, _ => True

theorem double_findByEmail (users : Table User.id) (email : String) :
    InMemoryUserRepository.findByEmail ⟨OrderedMap.ofTable users⟩ email = UserRepository.findByEmail users email := by
  rw [InMemoryUserRepository.findByEmail, OrderedMap.values_ofTable, UserRepository.findByEmail, Table.select, List.head?_filter]

theorem double_findById (users : Table User.id) (id : Uuid) :
    InMemoryUserRepository.findById ⟨OrderedMap.ofTable users⟩ id = UserRepository.findById users id := by
  rw [InMemoryUserRepository.findById, OrderedMap.get?_ofTable, UserRepository.findById]
  have hselect : (users.select (fun user => user.id = id)).head? = (users.find? id).filter (fun _ => true) :=
    Table.head?_select_key (fun user _ => by simp)
  rw [hselect]
  cases users.find? id <;> rfl

/-- An update of a user, and the row under its id. -/
theorem double_replace (users : Table User.id) (userId : Uuid) (f : User → User) (hf : ∀ user, (f user).id = user.id) :
    InMemoryUserRepository.replace ⟨OrderedMap.ofTable users⟩ userId f =
      ⟨OrderedMap.ofTable (users.update (fun user => user.id = userId) f hf)⟩ := by
  rw [InMemoryUserRepository.replace, OrderedMap.replace_ofTable hf (q := fun user => decide (user.id = userId)) (fun user _ => by simp)]

theorem double_setRefreshTokenHash (gen : Generated) (users : Table User.id) (userId : Uuid) (hash : Option String) :
    InMemoryUserRepository.setRefreshTokenHash gen ⟨OrderedMap.ofTable users⟩ userId hash =
      ⟨OrderedMap.ofTable (UserRepository.setRefreshTokenHash users gen.now userId hash)⟩ :=
  double_replace users userId (fun user => { user with refreshTokenHash := hash, updatedAt := gen.now }) (fun _ => rfl)

theorem double_updatePassword (gen : Generated) (users : Table User.id) (userId : Uuid) (passwordHash : String) :
    InMemoryUserRepository.updatePassword gen ⟨OrderedMap.ofTable users⟩ userId passwordHash =
      ⟨OrderedMap.ofTable (UserRepository.updatePassword users gen.now userId passwordHash)⟩ :=
  double_replace users userId (fun user => { user with passwordHash := passwordHash, updatedAt := gen.now }) (fun _ => rfl)

/-- An address nobody has is inserted. -/
theorem create_free {users : Table User.id} {email : String} (now : Time) (id : Uuid) (passwordHash : String) (hid : ∀ user ∈ users, user.id ≠ id)
    (hcolumn : varcharIn 255 email = some email) (hfree : ∀ user ∈ users, user.email ≠ email) :
    ∃ users', users.insert (UserRepository.newRow now id email passwordHash) = some users' ∧
      UserRepository.create users now id email passwordHash = some (UserRepository.newRow now id email passwordHash, users') := by
  obtain ⟨users', hins⟩ := Table.insert_of_key_ne (r := UserRepository.newRow now id email passwordHash) hid
  refine ⟨users', hins, ?_⟩
  have hnone : ¬users.rows.any (fun user => user.email = email) = true := by
    simpa [Table.mem_def] using hfree
  rw [UserRepository.create, if_pos ⟨hcolumn, hnone⟩, hins]
  rfl

/-- The double answers a call as the database does, and holds its rows after it. -/
theorem double_exec {α : Type} {c : AccountCall α} {ch : AccountChoice} {a : AccountStore} (hc : c.Mirrored a)
    (hnew : ch.id ∉ a.issued) (hids : ∀ user ∈ a.users, user.id ∈ a.issued) :
    c.double crypto ch (TestStore.of a) = ((c.exec crypto ch a).1, TestStore.of (c.exec crypto ch a).2) := by
  cases c with
  | findByEmail email =>
    have hplain : nul ∉ email.toList := hc
    simp only [AccountCall.double, AccountCall.exec, if_neg hplain, TestStore.of, double_findByEmail]
  | findById id =>
    simp only [AccountCall.double, AccountCall.exec, TestStore.of, double_findById]
  | createUser email passwordHash =>
    obtain ⟨users', hins, hcreate⟩ := create_free a.now ch.id passwordHash
      (fun user hu he => hnew (he ▸ hids user hu)) hc.1 hc.2
    have hset : OrderedMap.set (OrderedMap.ofTable a.users) ch.id (UserRepository.newRow a.now ch.id email passwordHash) =
        OrderedMap.ofTable users' := OrderedMap.set_ofTable_insert hins
    simp only [AccountCall.exec, if_neg hnew, hcreate]
    simp only [AccountCall.double, TestStore.of, InMemoryUserRepository.create]
    exact congrArg (fun users => (Except.ok _, (⟨⟨users⟩, ch.id :: a.issued, a.now⟩ : TestStore))) hset
  | setRefreshTokenHash userId hash =>
    simp only [AccountCall.double, AccountCall.exec, TestStore.of, double_setRefreshTokenHash]
  | updatePassword userId passwordHash =>
    simp only [AccountCall.double, AccountCall.exec, TestStore.of, double_updatePassword]
  | bcryptHash | bcryptCompare => rfl
  | findByUserId | countByUserId | createKey | deleteById => cases hc

/-! ## The calls of a test -/

/-- Between its question for the address and its insert a `register` counts on the address being free. -/
def AccountTask.needsFree : AccountTask → Option String
  | .register email _ .hash | .register email _ (.create _) => some email
  | _ => none

/-- A call that has a suspension point left has not ended. -/
theorem not_done_of_next {now : Time} {random : BitVec 192} {t : AccountTask} {aw : AccountAwait AccountTask}
    (hn : t.next crypto cfg now random = some aw) : t.done = false := by
  cases t with
  | register _ _ p | login _ _ p | refresh _ p | logout _ p | me _ p | changePassword _ _ _ p | listKeys _ p | createKey _ p
  | revokeKey _ _ p => cases p <;> first | rfl | cases hn

/-- A call that counts on an address has not ended. -/
theorem not_done_of_needsFree {t : AccountTask} {email : String} (h : t.needsFree = some email) : t.done = false := by
  unfold AccountTask.needsFree at h
  split at h
  · rfl
  · rfl
  · cases h

/-- Only a `register` counts on an address, its own. -/
theorem request_of_needsFree {t : AccountTask} {email : String} (h : t.needsFree = some email) :
    ∃ password, t.request = .register email password := by
  unfold AccountTask.needsFree at h
  split at h
  · exact ⟨_, congrArg (AccountRequest.register · _) (Option.some.inj h)⟩
  · exact ⟨_, congrArg (AccountRequest.register · _) (Option.some.inj h)⟩
  · cases h

/-- What a call of `AuthService` awaits is mirrored, and the address it counts on afterwards is free. -/
structure CallMirrored (crypto : Crypto) (a : AccountStore) (t : AccountTask) (aw : AccountAwait AccountTask) : Prop where
  call : aw.call.Mirrored a
  request : ∀ r, (aw.resume r).request = t.request
  free : ∀ ch email, (aw.resume (aw.call.exec crypto ch a).1).needsFree = some email →
    ∀ user ∈ (aw.call.exec crypto ch a).2.users, user.email ≠ email

theorem callMirrored {a : AccountStore} {random : BitVec 192} {t : AccountTask} {aw : AccountAwait AccountTask}
    (hn : t.next crypto cfg a.now random = some aw) (hreq : t.request.onUsers = true)
    (hfree : ∀ email, t.needsFree = some email → ∀ user ∈ a.users, user.email ≠ email) : CallMirrored crypto a t aw := by
  refine ⟨?_, request_resume hn, fun ch email hneeds => ?_⟩
  · cases t with
    | register email password p =>
      obtain ⟨aw, hp, rfl⟩ := Option.map_eq_some_iff.1 hn
      cases p with
      | create passwordHash =>
        cases hp
        obtain ⟨hlength, hplain⟩ := Bool.and_eq_true_iff.1 hreq
        exact ⟨varcharIn_self.2 ⟨of_decide_eq_true hplain, of_decide_eq_true hlength⟩, hfree email rfl⟩
      | findByEmail =>
        cases hp
        have hplain : nul ∉ email.toList := of_decide_eq_true (Bool.and_eq_true_iff.1 hreq).2
        exact hplain
      | hash | setRefreshTokenHash =>
        cases hp
        trivial
      | returned | threw => cases hp
    | login email password p =>
      obtain ⟨aw, hp, rfl⟩ := Option.map_eq_some_iff.1 hn
      cases p with
      | findByEmail =>
        cases hp
        have hplain : nul ∉ email.toList := of_decide_eq_true hreq
        exact hplain
      | compare | setRefreshTokenHash =>
        cases hp
        trivial
      | returned | threw => cases hp
    | refresh _ p | logout _ p | me _ p | changePassword _ _ _ p =>
      obtain ⟨aw, hp, rfl⟩ := Option.map_eq_some_iff.1 hn
      cases p <;> cases hp <;> trivial
    | listKeys | createKey | revokeKey => cases hreq
  · obtain ⟨password, hregister⟩ := request_of_needsFree hneeds
    rw [request_resume hn] at hregister
    cases t with
    | register email' password' p =>
      obtain ⟨rfl, rfl⟩ : email' = email ∧ password' = password := by
        cases hregister
        exact ⟨rfl, rfl⟩
      obtain ⟨aw, hp, rfl⟩ := Option.map_eq_some_iff.1 hn
      cases p with
      | findByEmail =>
        cases hp
        rw [AccountTask.request] at hreq
        have hplain : nul ∉ email'.toList := of_decide_eq_true (Bool.and_eq_true_iff.1 hreq).2
        cases hfound : UserRepository.findByEmail a.users email' with
        | none =>
          intro user hu he
          have hnone := List.head?_eq_none_iff.1 hfound
          exact List.eq_nil_iff_forall_not_mem.1 hnone user (Table.mem_select.2 ⟨hu, decide_eq_true he⟩)
        | some user =>
          simp only [AccountAwait.map, AccountCall.exec, if_neg hplain, hfound] at hneeds
          cases hneeds
      | hash =>
        cases hp
        exact hfree email' rfl
      | create passwordHash =>
        cases hp
        simp only [AccountAwait.map] at hneeds
        split at hneeds <;> cases hneeds
      | setRefreshTokenHash =>
        cases hp
        cases hneeds
      | returned | threw => cases hp
    | login | refresh | logout | me | changePassword | listKeys | createKey | revokeKey => cases hregister

/-- An id of the table has been issued. -/
theorem issued_exec {α : Type} (c : AccountCall α) (ch : AccountChoice) {a : AccountStore} (h : ∀ user ∈ a.users, user.id ∈ a.issued) :
    ∀ user ∈ (c.exec crypto ch a).2.users, user.id ∈ (c.exec crypto ch a).2.issued := by
  have hupdate : ∀ (p : User → Bool) (f : User → User) (hf : ∀ user, (f user).id = user.id),
      ∀ user ∈ a.users.update p f hf, user.id ∈ a.issued := by
    intro p f hf user hu
    obtain ⟨old, hold, rfl⟩ := Table.mem_update.1 hu
    split
    · rw [hf]
      exact h old hold
    · exact h old hold
  cases c with
  | createUser email passwordHash =>
    simp only [AccountCall.exec, UserRepository.create]
    split
    · exact h
    · split
      · exact h
      · rename_i user users hcreate
        split at hcreate
        · obtain ⟨users', hins, heq⟩ := Option.map_eq_some_iff.1 hcreate
          cases heq
          intro x hx
          rcases (Table.insert_eq_some hins x).1 hx with hold | rfl
          · exact List.mem_cons_of_mem _ (h x hold)
          · exact List.mem_cons_self
        · cases hcreate
  | setRefreshTokenHash userId hash =>
    exact hupdate _ (fun user => { user with refreshTokenHash := hash, updatedAt := a.now }) (fun _ => rfl)
  | updatePassword userId passwordHash =>
    exact hupdate _ (fun user => { user with passwordHash := passwordHash, updatedAt := a.now }) (fun _ => rfl)
  | createKey data =>
    simp only [AccountCall.exec]
    split
    · exact h
    · split
      · exact h
      · exact fun user hu => List.mem_cons_of_mem _ (h user hu)
  | findByEmail | findById | bcryptHash | bcryptCompare | findByUserId | countByUserId | deleteById => exact h

/-! ## The two tests, step by step -/

/-- The calls of the two tests have come to the same points, the double holds the rows of the database, no two calls are in progress, and
the address a call counts on is free. -/
structure BenchTwins (a : Bench AccountStore) (d : Bench TestStore) : Prop where
  tasks : d.tasks = a.tasks
  store : d.store = TestStore.of a.store
  issued : ∀ user ∈ a.store.users, user.id ∈ a.store.issued
  requests : ∀ t ∈ a.tasks, t.request.onUsers = true
  one : ∀ (i j : Nat) (t u : AccountTask), a.tasks[i]? = some t → a.tasks[j]? = some u → t.done = false → u.done = false → i = j
  free : ∀ t ∈ a.tasks, ∀ email, t.needsFree = some email → ∀ user ∈ a.store.users, user.email ≠ email

/-- A call that begins once the others have ended. -/
theorem bench_call (crypto : Crypto) (h : BenchTwins a d) {r : AccountRequest} (hr : r.onUsers = true)
    (hended : a.tasks.all AccountTask.done = true) :
    BenchTwins { a with tasks := a.tasks ++ [r.task crypto a.store.now] } { d with tasks := d.tasks ++ [r.task crypto d.store.now] } := by
  have hrequest : (r.task crypto a.store.now).request = r := by cases r <;> rfl
  have hlast : ∀ i t, (a.tasks ++ [r.task crypto a.store.now])[i]? = some t → t.done = false → i = a.tasks.length := by
    intro i t hi hopen
    have hlt := (List.getElem?_eq_some_iff.1 hi).1
    rw [List.length_append, List.length_singleton] at hlt
    by_cases hold : i < a.tasks.length
    · rw [List.getElem?_append_left hold] at hi
      rw [List.all_eq_true.1 hended t (List.mem_of_getElem? hi)] at hopen
      cases hopen
    · omega
  refine ⟨?_, h.store, h.issued, fun t ht => ?_, fun i j t u hi hj ht hu => ?_, fun t ht email hneeds => ?_⟩
  · rw [h.tasks, h.store]
    rfl
  · rcases List.mem_append.1 ht with hold | hnew
    · exact h.requests t hold
    · rw [List.mem_singleton.1 hnew, hrequest]
      exact hr
  · rw [hlast i t hi ht, hlast j u hj hu]
  · rcases List.mem_append.1 ht with hold | hnew
    · exact h.free t hold email hneeds
    · rw [List.mem_singleton.1 hnew] at hneeds
      cases r <;> cases hneeds

/-- A call that comes to its next suspension point. -/
theorem bench_exec (h : BenchTwins a d) {i : Nat} {ch : AccountChoice} (hnew : ch.id ∉ a.store.issued) {t : AccountTask}
    {aw : AccountAwait AccountTask} (ht : a.tasks[i]? = some t) (hn : t.next crypto cfg a.store.now ch.random = some aw) :
    BenchTwins ⟨(aw.call.exec crypto ch a.store).2, a.tasks.set i (aw.resume (aw.call.exec crypto ch a.store).1)⟩
      ⟨(aw.call.double crypto ch d.store).2, d.tasks.set i (aw.resume (aw.call.double crypto ch d.store).1)⟩ := by
  have hmem := List.mem_of_getElem? ht
  have hcall := callMirrored hn (h.requests t hmem) (h.free t hmem)
  have hdouble : aw.call.double crypto ch d.store = ((aw.call.exec crypto ch a.store).1, TestStore.of (aw.call.exec crypto ch a.store).2) := by
    rw [h.store]
    exact double_exec hcall.call hnew h.issued
  have hopen := not_done_of_next hn
  -- every other call has ended
  have hothers : ∀ j u, j ≠ i → a.tasks[j]? = some u → u.done = true := by
    intro j u hne hj
    cases hu : u.done with
    | true => rfl
    | false => exact absurd (h.one j i u t hj ht hu hopen) hne
  have hset : ∀ j u, (a.tasks.set i (aw.resume (aw.call.exec crypto ch a.store).1))[j]? = some u → u.done = false → j = i := by
    intro j u hj hu
    by_contra hne
    rw [List.getElem?_set_ne (Ne.symm hne)] at hj
    rw [hothers j u hne hj] at hu
    cases hu
  refine ⟨?_, ?_, issued_exec aw.call ch h.issued, fun u hu => ?_, fun j k u v hj hk hu hv => ?_, fun u hu email hneeds => ?_⟩
  · rw [hdouble, h.tasks]
  · rw [hdouble]
  · rcases List.mem_or_eq_of_mem_set hu with hold | rfl
    · exact h.requests u hold
    · rw [hcall.request]
      exact h.requests t hmem
  · rw [hset j u hj hu, hset k v hk hv]
  · obtain ⟨j, hj⟩ := List.getElem?_of_mem hu
    obtain rfl := hset j u hj (not_done_of_needsFree hneeds)
    rw [List.getElem?_set_self (List.getElem?_eq_some_iff.1 ht).1, Option.some.injEq] at hj
    subst hj
    exact hcall.free ch email hneeds

/-- The two tests take a step together. -/
theorem bench_step (crypto : Crypto) (cfg : AuthServiceConfig) (h : BenchTwins a d) (b : BenchAction) :
    Option.Rel BenchTwins ((bench (onDatabase crypto) AccountStore.empty crypto cfg false).step a b)
      ((bench (inMemory crypto) TestStore.empty crypto cfg false).step d b) := by
  have hnow : d.store.now = a.store.now := by rw [h.store]; rfl
  have hissued : d.store.issued = a.store.issued := by rw [h.store]; rfl
  cases b with
  | call r =>
    simp only [bench, Bench.step, h.tasks, Bool.false_or]
    split
    · rename_i hok
      obtain ⟨hr, hended⟩ := Bool.and_eq_true_iff.1 hok
      have htwins := bench_call crypto h hr hended
      rw [h.tasks] at htwins
      exact .some htwins
    · exact .none
  | wait ms =>
    refine .some ⟨h.tasks, ?_, h.issued, h.requests, h.one, h.free⟩
    simp only [inMemory, onDatabase, h.store]
    rfl
  | exec i ch =>
    simp only [bench, Bench.step, inMemory, onDatabase, h.tasks, hnow, hissued]
    split
    · exact .none
    · rename_i hnew
      cases ht : a.tasks[i]? with
      | none => exact .none
      | some t =>
        dsimp only
        cases hn : t.next crypto cfg a.store.now ch.random with
        | none => exact .none
        | some aw =>
          have htwins := bench_exec h hnew ht hn
          rw [h.tasks] at htwins
          exact .some htwins

/-- A script whose calls do not overlap. -/
theorem tests_agree_in_turn (crypto : Crypto) (cfg : AuthServiceConfig) : TestsAgree crypto cfg false := by
  intro script
  have hstart : BenchTwins ⟨AccountStore.empty, []⟩ ⟨TestStore.empty, []⟩ := by
    refine ⟨rfl, rfl, fun user hu => absurd hu (Table.not_mem_empty user), fun t ht => ?_, fun i j t u hi => ?_, fun t ht => ?_⟩
    · cases ht
    · cases hi
    · cases ht
  have hrun : Option.Rel BenchTwins
      ((bench (onDatabase crypto) AccountStore.empty crypto cfg false).run ⟨AccountStore.empty, []⟩ (script.map id))
      ((bench (inMemory crypto) TestStore.empty crypto cfg false).run ⟨TestStore.empty, []⟩ (script.map id)) :=
    Lts.run_rel (fun b _ _ _ hab => bench_step crypto cfg hab b) hstart
  rw [List.map_id] at hrun
  generalize (bench (onDatabase crypto) AccountStore.empty crypto cfg false).run ⟨AccountStore.empty, []⟩ script = x at hrun ⊢
  generalize (bench (inMemory crypto) TestStore.empty crypto cfg false).run ⟨TestStore.empty, []⟩ script = y at hrun ⊢
  cases hrun with
  | none => rfl
  | some htwins => exact congrArg some htwins.tasks.symm

/-- Two registrations of one address, in progress together. -/
def overlappingRegistrations : List BenchAction :=
  let step (i n : Nat) : BenchAction := .exec i ⟨Trace.uuid n, "bcrypt:secret", 0, []⟩
  [.call (.register "a@b.c" "secret"), .call (.register "a@b.c" "secret"), step 0 0, step 1 0, step 0 0, step 1 0, step 0 1, step 1 2]

/-- The tests on the double agree with the database, whatever the calls are, exactly when no two calls overlap. -/
theorem tests_agree (overlapping : Bool) :
    (∀ crypto cfg, TestsAgree crypto cfg overlapping) ↔ overlapping = false := by
  constructor
  · intro h
    cases overlapping with
    | false => rfl
    | true =>
      have hagree := h Trace.crypto Trace.ttl overlappingRegistrations
      have hdiffer : ((bench (onDatabase Trace.crypto) AccountStore.empty Trace.crypto Trace.ttl true).run ⟨AccountStore.empty, []⟩
          overlappingRegistrations).map Bench.tasks ≠
          ((bench (inMemory Trace.crypto) TestStore.empty Trace.crypto Trace.ttl true).run ⟨TestStore.empty, []⟩
            overlappingRegistrations).map Bench.tasks := by
        decide +kernel
      exact absurd hagree hdiffer
  · rintro rfl crypto cfg
    exact tests_agree_in_turn crypto cfg

end FileProcessing
