import FileProcessing.Lemmas.Agreement

/-!
# The tenants of the database are apart

`updateStatus` and `updateProgress` filter by the id of a job alone. They touch rows of one user all the same: an attempt runs for the
user of its payload, and the row of the job, its payload, its input and its output are one user's in every reachable state. So a step
on behalf of one user changes no row of another; and as every other statement names its user, what a call returns depends on the
user's rows and objects alone.
-/

namespace FileProcessing

variable {env : Env} {c c' d d' : Tenants} {u v : Uuid}

/-! ## Steps on behalf of a user -/

/-- The task serves the user: it is a request of theirs, an attempt at a job of theirs, or what such an attempt left behind. -/
def Task.Serves (queue : List BullJob) (v : Uuid) : Task → Prop
  | .createUploadUrl userId _ _ | .confirmUpload userId _ _ | .deleteFile userId _ _ | .createJob userId _ _ _ _
  | .cancelJob userId _ _ => userId = v
  | .attempt _ data _ _ => data.userId = v
  | .failedListener jobId _ _ => ∃ job ∈ queue, job.payload.jobId = jobId ∧ job.payload.userId = v
  | .report r _ => ∃ job ∈ queue, job.payload.jobId = r.jobId ∧ job.payload.userId = v
  | .sweep _ _ => False

/-- The user the next call of a task acts for; `register` and `login` act for no one until they know the user. `id` is the UUID
generated for a new account. -/
def AccountTask.subject (id : Uuid) : AccountTask → Option Uuid
  | .register _ _ (.create _) => some id
  | .register _ _ (.setRefreshTokenHash session) | .login _ _ (.setRefreshTokenHash session) => some session.user.id
  | .login _ _ (.compare user) => some user.id
  | .refresh _ (.findById userId) | .refresh _ (.setRefreshTokenHash userId) => some userId
  | .register _ _ _ | .login _ _ _ | .refresh _ _ => none
  | .logout userId _ | .me userId _ | .changePassword userId _ _ _ | .listKeys userId _ | .createKey userId _
  | .revokeKey userId _ _ => some userId

/-- The user a call that reads is made for. -/
def ReadTask.userId : ReadTask → Uuid
  | .listFiles userId _ _ | .findFile userId _ _ | .downloadFile userId _ _ | .listJobs userId _ _ | .findJob userId _ _ => userId

/-- The step is executed on behalf of the user. A call that knows no user yet may be anyone's. -/
inductive OnBehalf (c : Tenants) (v : Uuid) : TenantAction → Prop where
  | request (r : Request) (random : Uuid) (who : r.userId = v) : OnBehalf c v (.platform (.request r random))
  | exec {i pick : Nat} {ch : Choice} {t : Task} (ht : c.system.tasks[i]? = some t) (who : t.Serves c.world.queue v) :
      OnBehalf c v (.platform (.exec i pick ch))
  | reject {i pick : Nat} {e : Err} {t : Task} (ht : c.system.tasks[i]? = some t) (who : t.Serves c.world.queue v) :
      OnBehalf c v (.platform (.reject i pick e))
  | settle {i : Nat} {t : Task} (ht : c.system.tasks[i]? = some t) (who : t.Serves c.world.queue v) :
      OnBehalf c v (.platform (.settle i))
  | deliver {k : Nat} {job : BullJob} (hk : c.world.queue[k]? = some job) (who : job.payload.userId = v) :
      OnBehalf c v (.platform (.deliver k))
  | stall {k : Nat} {job : BullJob} (hk : c.world.queue[k]? = some job) (who : job.payload.userId = v) :
      OnBehalf c v (.platform (.stall k))
  | guestSession : OnBehalf c v (.platform (.guestSession v))
  | call (r : AccountRequest) (who : ∀ w, r.userId? = some w → w = v) : OnBehalf c v (.call r)
  | callExec {i : Nat} {ch : AccountChoice} {t : AccountTask} (ht : c.calls[i]? = some t)
      (who : ∀ w, t.subject ch.id = some w → w = v) : OnBehalf c v (.exec i ch)
  | callReject {i : Nat} {e : Err} {t : AccountTask} (ht : c.calls[i]? = some t) (id : Uuid)
      (who : ∀ w, t.subject id = some w → w = v) : OnBehalf c v (.reject i e)
  | read (r : ReadRequest) (who : r.userId = v) : OnBehalf c v (.read r)
  | readExec {i : Nat} {countFirst : Bool} {ch : Choice} {t : ReadTask} (ht : c.reads[i]? = some t) (who : t.userId = v) :
      OnBehalf c v (.execRead i countFirst ch)
  | readReject {i : Nat} {countFirst : Bool} {e : Err} {t : ReadTask} (ht : c.reads[i]? = some t) (who : t.userId = v) :
      OnBehalf c v (.rejectRead i countFirst e)

/-! ## Two states that agree on a user -/

/-- The two states agree on the user: on the rows, and on the objects under the paths of the files. The clock shows the same time. -/
structure AgreeOn (u : Uuid) (c d : Tenants) : Prop where
  rows : (c.rowsOf u).Same (d.rowsOf u)
  objects : ∀ file ∈ c.world.filesOf u, c.world.bucket file.storagePath = d.world.bucket file.storagePath
  now : c.world.now = d.world.now

/-- The UUIDs the environment supplies are new in both states or in neither. -/
def NewInBoth (c d : Tenants) (ids : List Uuid) : Prop := ∀ id ∈ ids, (id ∈ c.world.issued ↔ id ∈ d.world.issued)

/-- How the call of a task settles. -/
def settleTask (i : Nat) : Nat × Except Err Choice → TenantAction
  | (pick, .ok ch) => .platform (.exec i pick ch)
  | (pick, .error e) => .platform (.reject i pick e)

/-- How the call of a reading task settles. -/
def settleRead (i : Nat) : Bool × Except Err Choice → TenantAction
  | (countFirst, .ok ch) => .execRead i countFirst ch
  | (countFirst, .error e) => .rejectRead i countFirst e

/-- How the call of a task on the accounts settles. -/
def settleCall (i : Nat) : Except Err AccountChoice → TenantAction
  | .ok ch => .exec i ch
  | .error e => .reject i e

/-- The ids a list of replies supplies. -/
def suppliedIds {π : Type} (replies : List (π × Except Err Choice)) : List Uuid :=
  replies.filterMap (fun reply => match reply.2 with
    | .ok ch => some ch.id
    | .error _ => none)

/-- The task at a place after its calls have settled one after the other. -/
def taskAfter (env : Env) (c : Tenants) (i : Nat) (replies : List (Nat × Except Err Choice)) : Option Task :=
  ((tenants env).run c (replies.map (settleTask i))).bind (fun c' => c'.system.tasks[i]?)

/-- The reading task at a place after its calls have settled one after the other. -/
def readAfter (env : Env) (c : Tenants) (i : Nat) (replies : List (Bool × Except Err Choice)) : Option ReadTask :=
  ((tenants env).run c (replies.map (settleRead i))).bind (fun c' => c'.reads[i]?)

/-- The task on the accounts at a place after its calls have settled one after the other. -/
def callAfter (env : Env) (c : Tenants) (i : Nat) (replies : List (Except Err AccountChoice)) : Option AccountTask :=
  ((tenants env).run c (replies.map (settleCall i))).bind (fun c' => c'.calls[i]?)

/-- The user a call of `ApiKeyService` is made for. -/
def AccountRequest.keysOf? : AccountRequest → Option Uuid
  | .listKeys userId | .createKey userId | .revokeKey userId _ => some userId
  | _ => none

/-! ## One owner -/

/-- The row of the job, its payload in the queue, its input and its output belong to one user. -/
structure OneOwner (w : World) (row : JobRow) : Prop where
  payload : ∀ job ∈ w.queue, job.payload.jobId = row.id → job.payload.userId = row.userId
  input : ∃ file ∈ w.db.files, file.id = row.fileId ∧ file.userId = row.userId
  output : ∀ o, row.outputFileId = some o → ∃ file ∈ w.db.files, file.id = o ∧ file.userId = row.userId

/-- The isolation of the tenants. A step on behalf of one user leaves the rows of every other as they are (`kept`). A call of a user
started in two states that agree on the user goes through the same points, to one result, whatever the environment replies
(`requests`, `reads`, `keys`). And what belongs to a job is one user's (`owner`). -/
structure DatabaseIsolated (env : Env) : Prop where
  kept : ∀ c u v a c', (tenants env).Reach Lts.Free c → u ≠ v → OnBehalf c v a → (tenants env).step c a = some c' →
    c'.rowsOf u = c.rowsOf u
  requests : ∀ c d c' d' u r random replies, (tenants env).Reach Lts.Free c → (tenants env).Reach Lts.Free d → AgreeOn u c d →
    r.userId = u → (tenants env).step c (.platform (.request r random)) = some c' →
    (tenants env).step d (.platform (.request r random)) = some d' → NewInBoth c' d' (suppliedIds replies) →
    taskAfter env c' c.system.tasks.length replies = taskAfter env d' d.system.tasks.length replies
  reads : ∀ c d c' d' u r replies, (tenants env).Reach Lts.Free c → (tenants env).Reach Lts.Free d → AgreeOn u c d → r.userId = u →
    (tenants env).step c (.read r) = some c' → (tenants env).step d (.read r) = some d' →
    readAfter env c' c.reads.length replies = readAfter env d' d.reads.length replies
  keys : ∀ c d c' d' u r replies, (tenants env).Reach Lts.Free c → (tenants env).Reach Lts.Free d → AgreeOn u c d →
    r.keysOf? = some u → (tenants env).step c (.call r) = some c' → (tenants env).step d (.call r) = some d' →
    NewInBoth c' d' (replies.filterMap (fun reply => reply.toOption.map AccountChoice.id)) →
    callAfter env c' c.calls.length replies = callAfter env d' d.calls.length replies
  owner : ∀ c row, (tenants env).Reach Lts.Free c → row ∈ c.world.db.jobs → OneOwner c.world row

/-! ## What belongs to a job -/

/-- In every reachable state. -/
theorem oneOwner (h : (tenants env).Reach Lts.Free c) {row : JobRow} (hrow : row ∈ c.world.db.jobs) : OneOwner c.world row := by
  obtain ⟨s, hs, users, sessions, rfl, -, -⟩ := mirrored h
  have hrefs := referencesStand hs row hrow
  have hown := referencesOwned hs row hrow
  refine ⟨fun job hjob hid => ?_, ?_, fun o ho => ?_⟩
  · obtain ⟨k, hk⟩ := List.getElem?_of_mem hjob
    exact ((coherent hs).entries hk hrow hid.symm).2.1.symm
  · obtain ⟨file, hfile, hid⟩ := hrefs.input
    exact ⟨file, hfile, hid, hown.input file hfile hid⟩
  · obtain ⟨file, hfile, hid⟩ := hrefs.output o ho
    exact ⟨file, hfile, hid, hown.output o ho file hfile hid⟩

/-! ## Who a step touches -/

/-- The rows of a job with an entry for the user are the user's. -/
theorem rows_of_entry (h : (tenants env).Reach Lts.Free c) {jobId : Uuid}
    (he : ∃ job ∈ c.world.queue, job.payload.jobId = jobId ∧ job.payload.userId = v) :
    ∀ row ∈ c.world.db.jobs, row.id = jobId → row.userId = v := by
  intro row hrow hid
  obtain ⟨job, hjob, hj, hu⟩ := he
  have hpayload := (oneOwner h hrow).payload job hjob (hj.trans hid.symm)
  rw [← hpayload, hu]

/-- A task that serves a user touches no row but the user's. -/
theorem within_of_serves (h : (tenants env).Reach Lts.Free c) {i : Nat} {t : Task} {e : Effect} (ht : c.system.tasks[i]? = some t)
    (hw : Writes t e) (who : t.Serves c.world.queue v) : e.Within c.world v := by
  cases hw with
  | createFile | markReady | deleteFile | createJob | cancelJob => exact who
  | nothing | presign | queueAdd | listenerPublish | reportPublish => trivial
  | listenerUpdate | reportProgress => exact rows_of_entry h who
  | removeObject | softDelete | hardDelete => exact who.elim
  | attempt k data p b _ hc =>
    have hentry : ∃ job ∈ c.world.queue, job.payload.jobId = data.jobId ∧ job.payload.userId = v := by
      obtain ⟨s, hs, users, sessions, rfl, -, -⟩ := mirrored h
      obtain ⟨job, hk, rfl⟩ := (locked hs).entry ht
      exact ⟨job, List.mem_of_getElem? hk, rfl, who⟩
    generalize hg : p.stage data = g at hc
    cases hc with
    | start | progress | complete => exact rows_of_entry h hentry
    | idle | publish | put | announce => trivial
    | insert file => exact (isOutput_of_stage hg).1.trans who

/-- A call on the accounts touches the user it acts for. -/
theorem touches_subject {crypto : Crypto} {auth : AuthServiceConfig} {now : Time} {random : BitVec 192} {t : AccountTask}
    {aw : AccountAwait AccountTask} (id : Uuid) (hn : t.next crypto auth now random = some aw) :
    aw.call.touches id = none ∨ aw.call.touches id = t.subject id := by
  cases t with
  | register email password p =>
    obtain ⟨aw, haw, rfl⟩ := Option.map_eq_some_iff.1 hn
    cases p with
    | findByEmail | hash => cases haw; exact Or.inl rfl
    | create | setRefreshTokenHash => cases haw; exact Or.inr rfl
    | returned | threw => cases haw
  | login email password p =>
    obtain ⟨aw, haw, rfl⟩ := Option.map_eq_some_iff.1 hn
    cases p with
    | findByEmail | compare => cases haw; exact Or.inl rfl
    | setRefreshTokenHash => cases haw; exact Or.inr rfl
    | returned | threw => cases haw
  | refresh token p =>
    obtain ⟨aw, haw, rfl⟩ := Option.map_eq_some_iff.1 hn
    cases p with
    | findById => cases haw; exact Or.inl rfl
    | setRefreshTokenHash => cases haw; exact Or.inr rfl
    | returned | threw => cases haw
  | logout userId p =>
    obtain ⟨aw, haw, rfl⟩ := Option.map_eq_some_iff.1 hn
    cases p with
    | setRefreshTokenHash => cases haw; exact Or.inr rfl
    | returned | threw => cases haw
  | me userId p =>
    obtain ⟨aw, haw, rfl⟩ := Option.map_eq_some_iff.1 hn
    cases p with
    | findById => cases haw; exact Or.inl rfl
    | returned | threw => cases haw
  | changePassword userId current new p =>
    obtain ⟨aw, haw, rfl⟩ := Option.map_eq_some_iff.1 hn
    cases p with
    | findById | compare | hash => cases haw; exact Or.inl rfl
    | updatePassword => cases haw; exact Or.inr rfl
    | returned | threw => cases haw
  | listKeys userId p =>
    obtain ⟨aw, haw, rfl⟩ := Option.map_eq_some_iff.1 hn
    cases p with
    | findByUserId => cases haw; exact Or.inl rfl
    | returned | threw => cases haw
  | createKey userId p =>
    obtain ⟨aw, haw, rfl⟩ := Option.map_eq_some_iff.1 hn
    cases p with
    | countByUserId => cases haw; exact Or.inl rfl
    | create => cases haw; exact Or.inr rfl
    | returned | threw => cases haw
  | revokeKey userId keyId p =>
    obtain ⟨aw, haw, rfl⟩ := Option.map_eq_some_iff.1 hn
    cases p with
    | deleteById => cases haw; exact Or.inr rfl
    | returned | threw => cases haw

/-- A step on behalf of one user leaves the rows of every other as they are. -/
theorem rows_kept {a : TenantAction} (h : (tenants env).Reach Lts.Free c) (hne : u ≠ v) (who : OnBehalf c v a)
    (hs : TenantStepped env c a c') : c'.rowsOf u = c.rowsOf u := by
  cases hs with
  | call | reject | read | execRead | rejectRead => rfl
  | @exec i ch t aw ht hn =>
    cases who with
    | callExec ht' who =>
      rw [ht] at ht'
      cases ht'
      refine rowsOf_touched env.crypto aw.call ch _ (fun htouch => ?_)
      rcases touches_subject ch.id hn with hnone | hsubject
      · rw [hnone] at htouch
        cases htouch
      · exact hne (who u (hsubject.symm.trans htouch))
  | platform a system hstep old =>
    cases step_cases hstep with
    | @exec i pick ch t aw ht hn =>
      cases who with
      | exec ht' who =>
        rw [ht] at ht'
        cases ht'
        exact rowsOf_within ch (within_of_serves h ht (writes_of_next hn) who) hne rfl
    | register user => exact absurd rfl (old user)
    | request | startSweep | reject | upload | deliver | stall | settle | guestSession | tick => rfl

/-! ## Two runs of a task -/

/-- Two runs of a task of the user that have come to one point. -/
structure TaskTwins (env : Env) (u : Uuid) (keys : String → Prop) (ids : Uuid → Prop) (i j : Nat) (c d : Tenants) : Prop where
  left : (tenants env).Reach Lts.Free c
  right : (tenants env).Reach Lts.Free d
  alike : Alike u keys ids c.world d.world
  task : ∃ t, c.system.tasks[i]? = some t ∧ d.system.tasks[j]? = some t ∧ t.Sees u keys c.world

/-- A call of a task that is executed. -/
theorem step_exec (env : Env) {i : Nat} {t : Task} (pick : Nat) (ch : Choice) (ht : c.system.tasks[i]? = some t) :
    (tenants env).step c (.platform (.exec i pick ch)) = (t.next env.config pick).map (fun aw =>
      { c with system := c.system.resume i (aw.call.exec ch c.world).2 (aw.resume (aw.call.exec ch c.world).1) }) := by
  simp only [tenants, Tenants.step, System.step, ht]
  cases t.next env.config pick <;> rfl

/-- A call of a task that fails in transit. -/
theorem step_reject (env : Env) {i : Nat} {t : Task} (pick : Nat) (e : Err) (ht : c.system.tasks[i]? = some t) :
    (tenants env).step c (.platform (.reject i pick e)) = (t.next env.config pick).bind (fun aw =>
      if aw.call.infallible then none else some { c with system := c.system.resume i c.world (aw.resume (.error e)) }) := by
  simp only [tenants, Tenants.step, System.step, ht]
  cases t.next env.config pick with
  | none => rfl
  | some aw =>
    simp only [Option.bind_some]
    split <;> rfl

/-- The twins stay twins, or neither makes the step. -/
theorem taskTwins_step {keys : String → Prop} {ids : Uuid → Prop} {i j : Nat} (h : TaskTwins env u keys ids i j c d)
    (reply : Nat × Except Err Choice) (hid : ∀ ch, reply.2 = .ok ch → ids ch.id) :
    Option.Rel (TaskTwins env u keys ids i j) ((tenants env).step c (settleTask i reply)) ((tenants env).step d (settleTask j reply)) := by
  obtain ⟨t, hi, hj, hsees⟩ := h.task
  obtain ⟨pick, r⟩ := reply
  cases r with
  | ok ch =>
    have hc := step_exec env pick ch hi
    have hd := step_exec env pick ch hj
    cases hn : t.next env.config pick with
    | none =>
      rw [hn] at hc hd
      simp only [settleTask, hc, hd]
      exact .none
    | some aw =>
      rw [hn] at hc hd
      obtain ⟨hown, hexec, -⟩ := own_task hsees hn
      obtain ⟨hreply, halike⟩ := own_exec h.alike (rowsIssued h.left) (rowsIssued h.right) (fun _ => hid ch rfl) hown
      have hleft := h.left.step _ trivial hc
      have hright := h.right.step _ trivial hd
      simp only [settleTask, hc, hd]
      refine .some ⟨hleft, hright, halike, _, Pool.getElem?_replace_self hi, ?_, hexec ch⟩
      rw [hreply]
      exact Pool.getElem?_replace_self hj
  | error e =>
    have hc := step_reject env pick e hi
    have hd := step_reject env pick e hj
    cases hn : t.next env.config pick with
    | none =>
      rw [hn] at hc hd
      simp only [settleTask, hc, hd]
      exact .none
    | some aw =>
      rw [hn, Option.bind_some] at hc hd
      cases hf : aw.call.infallible with
      | true =>
        rw [hf] at hc hd
        simp only [settleTask, hc, hd]
        exact .none
      | false =>
        rw [hf] at hc hd
        have hleft := h.left.step _ trivial hc
        have hright := h.right.step _ trivial hd
        simp only [settleTask, hc, hd]
        exact .some ⟨hleft, hright, h.alike, _, Pool.getElem?_replace_self hi, Pool.getElem?_replace_self hj,
          (own_task hsees hn).error e⟩

/-- Two runs of a reading task of the user that have come to one point. -/
structure ReadTwins (env : Env) (u : Uuid) (keys : String → Prop) (i j : Nat) (c d : Tenants) : Prop where
  left : (tenants env).Reach Lts.Free c
  right : (tenants env).Reach Lts.Free d
  alike : Alike u keys (fun _ => False) c.world d.world
  task : ∃ t, c.reads[i]? = some t ∧ d.reads[j]? = some t ∧ t.Sees u keys c.world

/-- A call of a reading task that is executed. -/
theorem step_execRead (env : Env) {i : Nat} {t : ReadTask} (countFirst : Bool) (ch : Choice) (ht : c.reads[i]? = some t) :
    (tenants env).step c (.execRead i countFirst ch) = (t.next countFirst).map (fun aw =>
      { c with reads := c.reads.set i (aw.resume (aw.call.exec env.ilike ch c.world).1) }) := by
  simp only [tenants, Tenants.step, ht]
  cases hn : t.next countFirst with
  | none => rfl
  | some aw =>
    simp only [Option.map_some, world_of_read ch c.world hn]
    rfl

/-- A call of a reading task that fails in transit. -/
theorem step_rejectRead (env : Env) {i : Nat} {t : ReadTask} (countFirst : Bool) (e : Err) (ht : c.reads[i]? = some t) :
    (tenants env).step c (.rejectRead i countFirst e) = (t.next countFirst).map (fun aw =>
      { c with reads := c.reads.set i (aw.resume (.error e)) }) := by
  simp only [tenants, Tenants.step, ht]
  cases t.next countFirst <;> rfl

/-- The twins stay twins, or neither makes the step. -/
theorem readTwins_step {keys : String → Prop} {i j : Nat} (h : ReadTwins env u keys i j c d) (reply : Bool × Except Err Choice) :
    Option.Rel (ReadTwins env u keys i j) ((tenants env).step c (settleRead i reply)) ((tenants env).step d (settleRead j reply)) := by
  obtain ⟨t, hi, hj, hsees⟩ := h.task
  have hli : i < c.reads.length := (List.getElem?_eq_some_iff.1 hi).1
  have hlj : j < d.reads.length := (List.getElem?_eq_some_iff.1 hj).1
  obtain ⟨countFirst, r⟩ := reply
  cases r with
  | ok ch =>
    have hc := step_execRead env countFirst ch hi
    have hd := step_execRead env countFirst ch hj
    cases hn : t.next countFirst with
    | none =>
      rw [hn] at hc hd
      simp only [settleRead, hc, hd]
      exact .none
    | some aw =>
      rw [hn] at hc hd
      obtain ⟨hown, hexec, -⟩ := own_readTask env.ilike hsees hn
      have hreply := own_read env.ilike h.alike (rowsIssued h.left) (rowsIssued h.right) hown ch
      have hleft := h.left.step _ trivial hc
      have hright := h.right.step _ trivial hd
      simp only [settleRead, hc, hd]
      refine .some ⟨hleft, hright, h.alike, _, List.getElem?_set_self hli, ?_, hexec ch⟩
      rw [hreply]
      exact List.getElem?_set_self hlj
  | error e =>
    have hc := step_rejectRead env countFirst e hi
    have hd := step_rejectRead env countFirst e hj
    cases hn : t.next countFirst with
    | none =>
      rw [hn] at hc hd
      simp only [settleRead, hc, hd]
      exact .none
    | some aw =>
      rw [hn] at hc hd
      have hleft := h.left.step _ trivial hc
      have hright := h.right.step _ trivial hd
      simp only [settleRead, hc, hd]
      exact .some ⟨hleft, hright, h.alike, _, List.getElem?_set_self hli, List.getElem?_set_self hlj,
        (own_readTask env.ilike hsees hn).2.2 e⟩

/-- Two runs of a task on the keys of the user that have come to one point. -/
structure KeyTwins (env : Env) (u : Uuid) (ids : Uuid → Prop) (i j : Nat) (c d : Tenants) : Prop where
  left : (tenants env).Reach Lts.Free c
  right : (tenants env).Reach Lts.Free d
  alike : AlikeStore u ids c.store d.store
  task : ∃ t, c.calls[i]? = some t ∧ d.calls[j]? = some t ∧ t.KeysOf u

/-- A call of a task on the accounts that is executed. -/
theorem step_execCall (env : Env) {i : Nat} {t : AccountTask} (ch : AccountChoice) (ht : c.calls[i]? = some t) :
    (tenants env).step c (.exec i ch) = (t.next env.crypto env.auth c.world.now ch.random).map (fun aw =>
      { c.setStore (aw.call.exec env.crypto ch c.store).2 with
        calls := c.calls.set i (aw.resume (aw.call.exec env.crypto ch c.store).1) }) := by
  simp only [tenants, Tenants.step, ht]
  cases t.next env.crypto env.auth c.world.now ch.random <;> rfl

/-- A call of a task on the accounts that fails in transit. -/
theorem step_rejectCall (env : Env) {i : Nat} {t : AccountTask} (e : Err) (ht : c.calls[i]? = some t) :
    (tenants env).step c (.reject i e) = (t.next env.crypto env.auth c.world.now 0).map (fun aw =>
      { c with calls := c.calls.set i (aw.resume (.error e)) }) := by
  simp only [tenants, Tenants.step, ht]
  cases t.next env.crypto env.auth c.world.now 0 <;> rfl

/-- The twins stay twins, or neither makes the step. -/
theorem keyTwins_step {ids : Uuid → Prop} {i j : Nat} (h : KeyTwins env u ids i j c d) (reply : Except Err AccountChoice)
    (hid : ∀ ch, reply = .ok ch → ids ch.id) :
    Option.Rel (KeyTwins env u ids i j) ((tenants env).step c (settleCall i reply)) ((tenants env).step d (settleCall j reply)) := by
  obtain ⟨t, hi, hj, hkeys⟩ := h.task
  have hli : i < c.calls.length := (List.getElem?_eq_some_iff.1 hi).1
  have hlj : j < d.calls.length := (List.getElem?_eq_some_iff.1 hj).1
  have hnow : d.world.now = c.world.now := h.alike.now.symm
  cases reply with
  | ok ch =>
    have hc := step_execCall env ch hi
    have hd := step_execCall env ch hj
    rw [hnow] at hd
    cases hn : t.next env.crypto env.auth c.world.now ch.random with
    | none =>
      rw [hn] at hc hd
      simp only [settleCall, hc, hd]
      exact .none
    | some aw =>
      rw [hn] at hc hd
      obtain ⟨hown, hstays⟩ := own_keyTask hkeys hn
      obtain ⟨hreply, halike⟩ := own_keys env.crypto h.alike (keysIssued h.left) (keysIssued h.right) (hid ch rfl) hown
      have hleft := h.left.step _ trivial hc
      have hright := h.right.step _ trivial hd
      simp only [settleCall, hc, hd]
      refine .some ⟨hleft, hright, ⟨halike.user, halike.apiKeys, halike.issued, h.alike.now⟩, _, List.getElem?_set_self hli, ?_,
        hstays _⟩
      rw [hreply]
      exact List.getElem?_set_self hlj
  | error e =>
    have hc := step_rejectCall env e hi
    have hd := step_rejectCall env e hj
    rw [hnow] at hd
    cases hn : t.next env.crypto env.auth c.world.now 0 with
    | none =>
      rw [hn] at hc hd
      simp only [settleCall, hc, hd]
      exact .none
    | some aw =>
      rw [hn] at hc hd
      have hleft := h.left.step _ trivial hc
      have hright := h.right.step _ trivial hd
      simp only [settleCall, hc, hd]
      exact .some ⟨hleft, hright, h.alike, _, List.getElem?_set_self hli, List.getElem?_set_self hlj, (own_keyTask hkeys hn).2 _⟩

/-! ## The result -/

/-- The keys under which the objects of the user's files are stored. -/
def PathsOf (c : Tenants) (u : Uuid) (key : String) : Prop := ∃ file ∈ c.world.filesOf u, file.storagePath = key

/-- Two states that agree on a user are alike for the user. -/
theorem alike_of_agree (h : AgreeOn u c d) (ids : Uuid → Prop) (hid : ∀ id, ids id → (id ∈ c.world.issued ↔ id ∈ d.world.issued)) :
    Alike u (PathsOf c u) ids c.world d.world where
  files := (List.perm_ext_iff_of_nodup (Table.nodup_select _ _) (Table.nodup_select _ _)).2 h.rows.files
  jobs := (List.perm_ext_iff_of_nodup (Table.nodup_select _ _) (Table.nodup_select _ _)).2 h.rows.jobs
  objects := by
    rintro key ⟨file, hfile, rfl⟩
    exact h.objects file hfile
  issued := hid
  now := h.now

/-- What is read off runs that end in related states, or neither of which runs through. -/
theorem same_after {T : Type} {R : Tenants → Tenants → Prop} {f g : Tenants → Option T} {x y : Option Tenants} (h : Option.Rel R x y)
    (hR : ∀ c d, R c d → f c = g d) : x.bind f = y.bind g := by
  cases h with
  | none => rfl
  | some h => exact hR _ _ h

/-- A request of the user goes through the same points in the two states. -/
theorem requests_agree (hc : (tenants env).Reach Lts.Free c) (hd : (tenants env).Reach Lts.Free d) (h : AgreeOn u c d) {r : Request}
    {random : Uuid} {replies : List (Nat × Except Err Choice)} (hu : r.userId = u)
    (hc' : (tenants env).step c (.platform (.request r random)) = some c')
    (hd' : (tenants env).step d (.platform (.request r random)) = some d') (hnew : NewInBoth c' d' (suppliedIds replies)) :
    taskAfter env c' c.system.tasks.length replies = taskAfter env d' d.system.tasks.length replies := by
  have hsees : (r.task env.config random).Sees u (PathsOf c u) c.world := by
    cases r with
    | confirmUpload userId fileId => exact ⟨hu, fun file hfile => ⟨file, hfile, rfl⟩⟩
    | createUploadUrl | deleteFile | createJob | cancelJob => exact hu
  have hlike := alike_of_agree h (fun _ => False) (fun _ hf => hf.elim)
  have hstart : TaskTwins env u (PathsOf c u) (· ∈ suppliedIds replies) c.system.tasks.length d.system.tasks.length c' d' := by
    have hleft := hc.step _ trivial hc'
    have hright := hd.step _ trivial hd'
    cases tenants_step_cases hc' with
    | platform _ system hstep _ =>
    cases tenants_step_cases hd' with
    | platform _ system' hstep' _ =>
    have hs : (platform env.config).step c.system (.request r random) = some system := hstep
    have hs' : (platform env.config).step d.system (.request r random) = some system' := hstep'
    cases step_cases hs with
    | request =>
    cases step_cases hs' with
    | request =>
    refine ⟨hleft, hright, ⟨hlike.files, hlike.jobs, hlike.objects, hnew, hlike.now⟩, r.task env.config random, ?_, ?_, ?_⟩
    · exact List.getElem?_concat_length
    · exact List.getElem?_concat_length
    · cases r <;> exact hsees
  refine same_after (Lts.run_rel (fun reply hreply a b htwins => taskTwins_step htwins reply (fun ch hch => ?_)) hstart) ?_
  · exact List.mem_filterMap.2 ⟨reply, hreply, by rw [hch]⟩
  · rintro a b ⟨-, -, -, t, ha, hb, -⟩
    rw [ha, hb]

/-- A call of the user that reads goes through the same points in the two states. -/
theorem reads_agree (hc : (tenants env).Reach Lts.Free c) (hd : (tenants env).Reach Lts.Free d) (h : AgreeOn u c d) {r : ReadRequest}
    {replies : List (Bool × Except Err Choice)} (hu : r.userId = u) (hc' : (tenants env).step c (.read r) = some c')
    (hd' : (tenants env).step d (.read r) = some d') :
    readAfter env c' c.reads.length replies = readAfter env d' d.reads.length replies := by
  have hstart : ReadTwins env u (PathsOf c u) c.reads.length d.reads.length c' d' := by
    have hleft := hc.step _ trivial hc'
    have hright := hd.step _ trivial hd'
    cases tenants_step_cases hc' with
    | read =>
    cases tenants_step_cases hd' with
    | read =>
    refine ⟨hleft, hright, alike_of_agree h _ (fun _ hf => hf.elim), r.task, List.getElem?_concat_length,
      List.getElem?_concat_length, ?_⟩
    cases r with
    | downloadFile userId fileId => exact ⟨hu, fun file hfile => ⟨file, hfile, rfl⟩⟩
    | listFiles | findFile | listJobs | findJob => exact hu
  refine same_after (Lts.run_rel (fun reply _ a b htwins => readTwins_step htwins reply) hstart) ?_
  rintro a b ⟨-, -, -, t, ha, hb, -⟩
  rw [ha, hb]

/-- A call of the user on the keys goes through the same points in the two states. -/
theorem keys_agree (hc : (tenants env).Reach Lts.Free c) (hd : (tenants env).Reach Lts.Free d) (h : AgreeOn u c d) {r : AccountRequest}
    {replies : List (Except Err AccountChoice)} (hu : r.keysOf? = some u) (hc' : (tenants env).step c (.call r) = some c')
    (hd' : (tenants env).step d (.call r) = some d')
    (hnew : NewInBoth c' d' (replies.filterMap (fun reply => reply.toOption.map AccountChoice.id))) :
    callAfter env c' c.calls.length replies = callAfter env d' d.calls.length replies := by
  have hstart : KeyTwins env u (· ∈ replies.filterMap (fun reply => reply.toOption.map AccountChoice.id)) c.calls.length d.calls.length
      c' d' := by
    have hleft := hc.step _ trivial hc'
    have hright := hd.step _ trivial hd'
    cases tenants_step_cases hc' with
    | call =>
    cases tenants_step_cases hd' with
    | call =>
    have hstore : AlikeStore u (· ∈ replies.filterMap (fun reply => reply.toOption.map AccountChoice.id)) c.store d.store :=
      ⟨h.rows.user, (List.perm_ext_iff_of_nodup (Table.nodup_select _ _) (Table.nodup_select _ _)).2 h.rows.apiKeys, hnew, h.now⟩
    refine ⟨hleft, hright, hstore, r.task env.crypto c.world.now, List.getElem?_concat_length, ?_, ?_⟩
    · rw [h.now]
      exact List.getElem?_concat_length
    · cases r with
      | listKeys | createKey | revokeKey => exact Option.some.inj hu
      | register | login | refresh | logout | me | changePassword => cases hu
  refine same_after (Lts.run_rel (fun reply hreply a b htwins => keyTwins_step htwins reply (fun ch hch => ?_)) hstart) ?_
  · exact List.mem_filterMap.2 ⟨reply, hreply, by rw [hch]; rfl⟩
  · rintro a b ⟨-, -, -, t, ha, hb, -⟩
    rw [ha, hb]

/-- The tenants of the database are isolated. -/
theorem database_isolated (env : Env) : DatabaseIsolated env where
  kept _ _ _ _ _ hc hne who hs := rows_kept hc hne who (tenants_step_cases hs)
  requests _ _ _ _ _ _ _ _ hc hd h hu hc' hd' hnew := requests_agree hc hd h hu hc' hd' hnew
  reads _ _ _ _ _ _ _ hc hd h hu hc' hd' := reads_agree hc hd h hu hc' hd'
  keys _ _ _ _ _ _ _ hc hd h hu hc' hd' hnew := keys_agree hc hd h hu hc' hd' hnew
  owner _ _ hc hrow := oneOwner hc hrow

end FileProcessing
