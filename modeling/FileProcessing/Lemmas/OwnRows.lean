import FileProcessing.Lemmas.Tenants

/-!
# The rows of a user, and who writes to them

`Tenants.rowsOf` is what the four tables hold of a user. A write of the platform touches the rows of one user (`Effect.Within`), and so
does a call on the accounts (`AccountCall.touches`); the rows of every other user stay as they are.
-/

namespace FileProcessing

variable {env : Env} {ok : Tenants → TenantAction → Prop} {c c' : Tenants}

/-- What the four tables hold of a user. -/
structure UserRows where
  user : Option User
  files : List FileRow
  jobs : List JobRow
  apiKeys : List ApiKeyRow
  deriving DecidableEq, Repr

/-- The same rows, whatever the order the tables hold them in. -/
structure UserRows.Same (a b : UserRows) : Prop where
  user : a.user = b.user
  files : ∀ file, file ∈ a.files ↔ file ∈ b.files
  jobs : ∀ job, job ∈ a.jobs ↔ job ∈ b.jobs
  apiKeys : ∀ key, key ∈ a.apiKeys ↔ key ∈ b.apiKeys

/-- The files of a user. -/
def World.filesOf (w : World) (u : Uuid) : List FileRow := w.db.files.select (fun file => file.userId = u)

/-- The jobs of a user. -/
def World.jobsOf (w : World) (u : Uuid) : List JobRow := w.db.jobs.select (fun job => job.userId = u)

/-- The rows of a user. -/
def Tenants.rowsOf (c : Tenants) (u : Uuid) : UserRows where
  user := UserRepository.findById c.world.db.users u
  files := c.world.filesOf u
  jobs := c.world.jobsOf u
  apiKeys := ApiKeyRepository.keysOf c.apiKeys u

/-! ## The writes of the platform -/

/-- The write touches no row but the user's. -/
def Effect.Within (w : World) (v : Uuid) : Effect → Prop
  | .createFile data => data.userId = v
  | .softDelete userId _ | .markReady userId _ | .cancelJob userId _ => userId = v
  | .hardDelete _ _ => False
  | .createJob data => data.userId = v
  | .updateStatus jobId _ _ | .updateProgress jobId _ => ∀ row ∈ w.db.jobs, row.id = jobId → row.userId = v
  | .none | .presign _ | .putObject _ _ | .removeObject _ | .queueAdd _ | .publish _ => True

/-- The files of the other users stay as they are. -/
theorem filesOf_within {w : World} {u v : Uuid} {e : Effect} (ch : Choice) (h : e.Within w v) (hne : u ≠ v) :
    (e.apply ch w).filesOf u = w.filesOf u := by
  have hother : ∀ {userId fileId : Uuid} {file : FileRow}, userId = v → FileRepository.owned userId fileId file = true →
      decide (file.userId = u) = false := by
    intro userId fileId file hv ho
    simp only [FileRepository.owned, Bool.and_eq_true, decide_eq_true_eq] at ho
    rw [ho.2, hv]
    exact decide_eq_false (Ne.symm hne)
  cases e with
  | createFile data =>
    rw [Effect.apply]
    rcases createFile_inserts ch w data with ⟨e, he⟩ | ⟨files, -, hins, he⟩ <;> rw [he]
    have hv : data.userId = v := h
    simp [World.filesOf, World.issue, Table.select_insert hins, hv, Ne.symm hne]
  | softDelete userId fileId =>
    apply Table.select_update_of_not
    · exact fun _ => rfl
    · exact fun _ => rfl
    · exact fun file _ ho => hother h ho
  | markReady userId fileId =>
    apply Table.select_update_of_not
    · exact fun _ => rfl
    · exact fun _ => rfl
    · intro file _ ho
      rw [Bool.and_eq_true] at ho
      exact hother h ho.1
  | hardDelete => exact h.elim
  | createJob data =>
    rw [Effect.apply]
    rcases createJob_inserts ch w data with ⟨e, he⟩ | ⟨jobs, -, -, -, he⟩
    · rw [he]
    · rw [he]
      rfl
  | updateStatus jobId status extra =>
    rw [Effect.apply]
    rcases updateStatus_cases ch w jobId status extra with ⟨-, e, he⟩ | ⟨row, he⟩
    · rw [he]
    · rw [he]
      rfl
  | none | cancelJob | updateProgress | presign | putObject | removeObject | queueAdd | publish => rfl

/-- The jobs of the other users stay as they are. -/
theorem jobsOf_within {w : World} {u v : Uuid} {e : Effect} (ch : Choice) (h : e.Within w v) (hne : u ≠ v) :
    (e.apply ch w).jobsOf u = w.jobsOf u := by
  have hother : ∀ {row : JobRow}, row.userId = v → decide (row.userId = u) = false := by
    intro row hv
    rw [hv]
    exact decide_eq_false (Ne.symm hne)
  cases e with
  | createFile data =>
    rw [Effect.apply]
    rcases createFile_inserts ch w data with ⟨e, he⟩ | ⟨files, -, -, he⟩
    · rw [he]
    · rw [he]
      rfl
  | hardDelete => exact h.elim
  | createJob data =>
    rw [Effect.apply]
    rcases createJob_inserts ch w data with ⟨e, he⟩ | ⟨jobs, -, -, hins, he⟩ <;> rw [he]
    have hv : data.userId = v := h
    simp [World.jobsOf, World.issue, Table.select_insert hins, hv, Ne.symm hne]
  | updateStatus jobId status extra =>
    rw [Effect.apply]
    rcases updateStatus_cases ch w jobId status extra with ⟨-, e, he⟩ | ⟨row, he⟩
    · rw [he]
    rw [he]
    apply Table.select_update_of_not
    · exact fun _ => rfl
    · exact fun _ => rfl
    · exact fun row hrow hid => hother (h row hrow (of_decide_eq_true hid))
  | updateProgress jobId progress =>
    apply Table.select_update_of_not
    · exact fun _ => rfl
    · exact fun _ => rfl
    · exact fun row hrow hid => hother (h row hrow (of_decide_eq_true hid))
  | cancelJob userId jobId =>
    apply Table.select_update_of_not
    · exact fun _ => rfl
    · exact fun _ => rfl
    · intro row _ ho
      simp only [JobRepository.owned, Bool.and_eq_true, decide_eq_true_eq] at ho
      exact hother (ho.1.2.trans h)
  | none | softDelete | markReady | presign | putObject | removeObject | queueAdd | publish => rfl

/-! ## The calls on the accounts -/

/-- The user whose rows a call writes to; `id` is the UUID generated for a new account. -/
def AccountCall.touches (id : Uuid) : {α : Type} → AccountCall α → Option Uuid
  | _, .createUser _ _ => some id
  | _, .setRefreshTokenHash userId _ | _, .updatePassword userId _ | _, .deleteById _ userId => some userId
  | _, .createKey data => some data.userId
  | _, _ => none

/-- The accounts of the other users stay as they are. -/
theorem accounts_touched {α : Type} {u : Uuid} (crypto : Crypto) (call : AccountCall α) (ch : AccountChoice) (a : AccountStore)
    (h : call.touches ch.id ≠ some u) :
    UserRepository.findById (call.exec crypto ch a).2.users u = UserRepository.findById a.users u ∧
      ApiKeyRepository.keysOf (call.exec crypto ch a).2.apiKeys u = ApiKeyRepository.keysOf a.apiKeys u := by
  have hupdated : ∀ {userId : Uuid} {f : User → User} (hf : ∀ user, (f user).id = user.id), userId ≠ u →
      UserRepository.findById (a.users.update (fun user => user.id = userId) f hf) u = UserRepository.findById a.users u := by
    intro userId f hf hne
    rw [findById_update]
    cases hfound : UserRepository.findById a.users u with
    | none => rfl
    | some user =>
      have hid : user.id ≠ userId := fun he => hne (he.symm.trans (id_of_findById hfound))
      simp [hid]
  have hne : ∀ {userId : Uuid}, some userId ≠ some u → userId ≠ u := fun h he => h (congrArg _ he)
  cases call with
  | createUser email passwordHash =>
    rcases @exec_createUser crypto ch a email passwordHash with he | ⟨users, he, hcreate, -⟩
    · rw [he]
      exact ⟨rfl, rfl⟩
    · rw [he, (findById_create hcreate).2.2 u, if_neg (hne h)]
      exact ⟨rfl, rfl⟩
  | setRefreshTokenHash userId hash =>
    refine ⟨?_, rfl⟩
    apply hupdated
    · exact fun _ => rfl
    · exact hne h
  | updatePassword userId passwordHash =>
    refine ⟨?_, rfl⟩
    apply hupdated
    · exact fun _ => rfl
    · exact hne h
  | createKey data =>
    rcases @exec_createKey crypto ch a data with he | ⟨apiKeys, he, hins, -⟩
    · rw [he]
      exact ⟨rfl, rfl⟩
    · rw [he]
      have hdata : data.userId ≠ u := hne h
      refine ⟨rfl, ?_⟩
      simp [ApiKeyRepository.keysOf, Table.select_insert hins, ApiKeyRepository.newRow, hdata]
  | deleteById id userId =>
    refine ⟨rfl, ?_⟩
    simp only [AccountCall.exec, ApiKeyRepository.deleteById, ApiKeyRepository.keysOf, Table.select_delete]
    refine List.filter_eq_self.2 (fun row hrow => ?_)
    have hu : row.userId = u := by simpa using (Table.mem_select.1 hrow).2
    simp [ApiKeyRepository.owned, hu, Ne.symm (hne h)]
  | findByEmail | findById | bcryptHash | bcryptCompare | findByUserId | countByUserId => exact ⟨rfl, rfl⟩

/-- A call on the accounts leaves the rows of the other users as they are. -/
theorem rowsOf_touched {α : Type} {u : Uuid} (crypto : Crypto) (call : AccountCall α) (ch : AccountChoice) (calls : List AccountTask)
    (h : call.touches ch.id ≠ some u) :
    Tenants.rowsOf { c.setStore (call.exec crypto ch c.store).2 with calls := calls } u = c.rowsOf u := by
  obtain ⟨huser, hkeys⟩ := accounts_touched crypto call ch c.store h
  show UserRows.mk _ _ _ _ = UserRows.mk _ _ _ _
  congr 1

/-- A write of the platform leaves the rows of the other users as they are. -/
theorem rowsOf_within {u v : Uuid} {e : Effect} {system : System} (ch : Choice) (h : e.Within c.world v) (hne : u ≠ v)
    (hw : system.world = e.apply ch c.world) : Tenants.rowsOf { c with system := system } u = c.rowsOf u := by
  have husers := (frame_apply ch c.world e).1
  have hfiles := filesOf_within ch h hne
  have hjobs := jobsOf_within ch h hne
  rw [← hw] at husers hfiles hjobs
  simp only [Tenants.rowsOf, Tenants.world]
  rw [husers, hfiles, hjobs]
  rfl

end FileProcessing
