import FileProcessing.Lemmas.Locks

/-!
# A pending job is queued

`JobService.create` inserts the row and then adds the job to the queue, and does not take the row back when the queue rejects.
So a pending row has its entry in the runs where `queue.add` goes through and where the last attempt of a job marks it active.
-/

namespace FileProcessing

variable {cfg : Config} {ok : System → Action → Prop} {s s' : System} {a : Action}

/-- A call of `create` for the values of the row, with these options, has returned the row. -/
def Created (s : System) (row : JobRow) (options : Option JobOptions) : Prop :=
  ∃ (i : Nat) (made : JobRow), s.tasks[i]? = some (.createJob row.userId row.fileId row.type options (.returned made)) ∧
    made.id = row.id

/-- The queue holds the job of the row, waiting or delivered, with the values of the row and the options it was created with. -/
def Enqueued (s : System) (row : JobRow) : Prop :=
  ∃ (k : Nat) (job : BullJob) (options : Option JobOptions), s.world.queue[k]? = some job ∧
    (job.state = .waiting ∨ ∃ i, job.state = .active i) ∧ Created s row options ∧
    job.payload = { jobId := row.id, fileId := row.fileId, type := row.type, userId := row.userId, options := options }

/-- No call of `create` is in progress. -/
def NoCreate (s : System) : Prop :=
  ∀ (i : Nat) u f ty o p, s.tasks[i]? = some (.createJob u f ty o p) → (∃ job, p = .returned job) ∨ ∃ e, p = .threw e

/-- Every pending row has its job in the queue whenever no call of `create` is in progress; and a call of `create` that throws,
run by itself, leaves `jobs` as it was. -/
def PendingIsQueued (cfg : Config) (ok : System → Action → Prop) : Prop :=
  (∀ s, (platform cfg).Reach ok s → NoCreate s → ∀ row ∈ s.world.db.jobs, row.status = .pending → Enqueued s row) ∧
  ∀ s s' (i : Nat) u f ty o e, (platform cfg).Reach ok s → s.tasks[i]? = some (.createJob u f ty o .findFile) →
    (platform cfg).Steps (fun s a => ok s a ∧ a.actor = some i) s s' → s'.tasks[i]? = some (.createJob u f ty o (.threw e)) →
    s'.world.db.jobs = s.world.db.jobs

/-- The conditions on a step: `queue.add` is not rejected, and the last attempt BullMQ grants a job is not rejected when it marks
a pending row active. -/
structure EnqueueKept (s : System) (a : Action) : Prop where
  added : ∀ i pick e, a = .reject i pick e → ∀ u f ty o row, s.tasks[i]? ≠ some (.createJob u f ty o (.add row))
  marked : ∀ i pick e k data p b job, a = .reject i pick e → s.tasks[i]? = some (.attempt k data p b) →
    p.stage data = .starting → s.world.queue[k]? = some job → job.state = .active i → attempts ≤ job.attemptsMade + 1 →
    ∀ row ∈ s.world.db.jobs, row.id = data.jobId → row.status ≠ .pending

/-! ## The attempts of a pending job -/

/-- The attempt that holds the lock of a pending job has still to mark it active, or threw with an attempt left. -/
def PendingAttempt (s : System) : Prop :=
  ∀ (k i : Nat) job p row, s.world.queue[k]? = some job → job.state = .active i →
    s.tasks[i]? = some (.attempt k job.payload p false) → row ∈ s.world.db.jobs → row.id = job.payload.jobId →
    row.status = .pending →
    p.stage job.payload = .starting ∨ ((∃ e, p.stage job.payload = .threw e) ∧ job.attemptsMade + 1 < attempts)

/-- A pending row was pending before the step, or has just been inserted. -/
theorem pending_back (hr : (platform cfg).Reach ok s) (h : Stepped cfg s a s') {row' : JobRow}
    (hrow : row' ∈ s'.world.db.jobs) (hp : row'.status = .pending) :
    (∃ row ∈ s.world.db.jobs, row.status = .pending ∧ row.id = row'.id ∧ row.userId = row'.userId ∧ row.fileId = row'.fileId ∧
      row.type = row'.type) ∨
    ∃ i u f ty o ch, Wrote s a i (.createJob u f ty o .create) ch (.createJob ⟨u, f, ty, .pending, 0⟩) ∧ ch.id ∉ s.world.issued ∧
      row' = JobRepository.newRow s.world.now ch.id ⟨u, f, ty, .pending, 0⟩ := by
  rcases jobs_step h hrow with hrow | ⟨i, t, ch, e, hw, ⟨row, hrow, hf⟩ | ⟨data, rfl, rfl, hn, -⟩⟩
  · exact Or.inl ⟨row', hrow, hp, rfl, rfl, rfl, rfl⟩
  · obtain ⟨hid, hu, hfile, hty⟩ := hf.core
    refine Or.inl ⟨row, hrow, ?_, hid.symm, hu.symm, hfile.symm, hty.symm⟩
    cases hf with
    | same | cleared | progress => exact hp
    | status _ st ex =>
      rcases status_writer hr hw with ⟨k, data, p, rfl, -, ⟨-, rfl⟩ | ⟨o, -, rfl⟩⟩ | ⟨m, rfl, rfl⟩ <;> cases hp
    | cancelled => cases hp
  · obtain ⟨u, f, ty, o, rfl, rfl⟩ := job_creator hw
    exact Or.inr ⟨i, u, f, ty, o, ch, hw, hn, rfl⟩

/-- An attempt that has still to mark its job active marks it, or its call fails in transit and it throws. -/
theorem starting_acts (h : Stepped cfg s a s') {i k pick : Nat} {data : JobPayload} {p : Attempt} {aw : Await (Attempt × List Report)}
    {r : Except Err aw.α} (ht : s.tasks[i]? = some (.attempt k data p false)) (hg : p.stage data = .starting)
    (hn : p.next data pick = some aw) (hr : Settles s i pick a aw.call r) :
    (∃ e, a = .reject i pick e ∧ (aw.resume r).1.stage data = .threw e) ∨
      ∀ row ∈ s'.world.db.jobs, row.id = data.jobId → row.status = .active := by
  obtain ⟨hcall, hstep⟩ := attempt_stage hn
  have hstep := hstep r
  rw [hg] at hcall hstep
  generalize hf : aw.call.effect = f at hcall
  cases hcall
  cases r with
  | error e =>
    rcases hr.of_error with ha | ⟨ch, -, hx⟩
    · exact Or.inl ⟨e, ha, hstep.of_error⟩
    · obtain ⟨v, hv⟩ := exec_updateStatus hf ch (w := s.world) (fun _ => rfl)
      rw [hv] at hx
      cases hx
  | ok v =>
    obtain ⟨ch, rfl, hx⟩ := hr.of_ok
    obtain ⟨aw', hn', hworld, -⟩ := attempt_acts h ht
    rw [hn] at hn'
    cases hn'
    refine Or.inr (fun row hrow hid => ?_)
    rw [hworld, exec_world, hf] at hrow
    exact updateStatus_rows hrow hid rfl

/-- A step keeps it: the attempt marks the job active, or its call fails with an attempt left. -/
theorem pendingAttempt_step (hreach : (platform cfg).Reach EnqueueKept s) (hok : EnqueueKept s a)
    (h : Stepped cfg s a s') (hI : PendingAttempt s) :
    PendingAttempt s' := by
  intro k i job' p' row' hk ha hi hrow hid hp
  rcases entry_back h hk with ⟨job, hk₀, hm⟩ | ⟨_, _, _, _, _, _, _, -, -, -, rfl⟩
  swap
  · cases ha
  rw [hm.payload] at hi hid ⊢
  rcases pending_back hreach h hrow hp with ⟨row, hrow₀, hp₀, hid₀, -⟩ | ⟨_, _, _, _, _, ch, -, hn, rfl⟩
  swap
  · have hid' : ch.id = job.payload.jobId := hid
    exact absurd (hid' ▸ ((issued hreach).entries hk₀).1) hn
  cases hm with
  | delivered hact hw =>
    cases ha
    subst hact
    rw [deliver_spawns h hk₀] at hi
    cases hi
    exact Or.inl (stage_start _)
  | stalled | finished | retries | gaveUp => cases ha
  | stays =>
    rcases task_back h hi with ⟨t, ht, hmt⟩ | ⟨-, hsp⟩
    · cases hmt with
      | waits => exact hI k i _ p' row hk₀ ha ht hrow₀ (hid₀.trans hid) hp₀
      | @attempt _ _ p _ _ aw r pick hn hr he =>
        subst he
        rcases hI k i _ p row hk₀ ha ht hrow₀ (hid₀.trans hid) hp₀ with hg | ⟨⟨e, hg⟩, -⟩
        · rcases starting_acts h ht hg hn hr with ⟨e, rfl, hg'⟩ | hactive
          · refine Or.inr ⟨⟨e, hg'⟩, ?_⟩
            by_contra hle
            exact hok.marked i pick e k _ p false _ rfl ht hg hk₀ ha (by omega) row hrow₀ (hid₀.trans hid) hp₀
          · rw [hactive row' hrow hid] at hp
            cases hp
        · have hcall := (attempt_stage hn).1
          rw [hg] at hcall
          cases hcall
    · cases hsp with
      | attempt hact hk' hw =>
        subst hact
        rw [hk₀] at hk'
        cases hk'
        rw [ha] at hw
        cases hw

/-- The invariant, in a run where the entries of pending jobs are kept. -/
theorem pendingAttempt (h : (platform cfg).Reach EnqueueKept s) : PendingAttempt s := by
  refine h.invariant ?_ (fun s a s' hreach hI hok hs => pendingAttempt_step hreach hok (step_cases hs) hI)
  rintro s rfl k i job p row hk
  cases hk

/-! ## Pending rows -/

/-- Every pending row is in the queue, or a call of `create` is about to add it. -/
def PendingKept (s : System) : Prop :=
  ∀ row ∈ s.world.db.jobs, row.status = .pending →
    (∃ (i : Nat) (u f : Uuid) (ty : String) (o : Option JobOptions) (r : JobRow),
      s.tasks[i]? = some (.createJob u f ty o (.add r)) ∧ r.id = row.id) ∨ Enqueued s row

/-- A call that has returned a row stays so. -/
theorem created_step (h : Stepped cfg s a s') {row : JobRow} {options : Option JobOptions} (hc : Created s row options) :
    Created s' row options := by
  obtain ⟨i, made, hi, hid⟩ := hc
  obtain ⟨t', ht', hm⟩ := task_forward h hi
  cases hm with
  | waits => exact ⟨i, made, ht', hid⟩
  | createJob hn => cases hn

/-- The job a call of `create` adds is in the queue. -/
theorem enqueued_of_add (hr : (platform cfg).Reach ok s) (h : Stepped cfg s a s') {i pick : Nat} {ch : Choice} {u f : Uuid}
    {ty : String} {o : Option JobOptions} {r row : JobRow} (ha : a = .exec i pick ch)
    (ht : s.tasks[i]? = some (.createJob u f ty o (.add r))) (hrow : row ∈ s.world.db.jobs) (hid : row.id = r.id) :
    Enqueued s' row := by
  subst ha
  obtain ⟨hfile, hu, hty⟩ := (coherent hr).creates ht hrow hid
  have hw : s'.world = ((Call.queueAdd ⟨r.id, f, ty, u, o⟩).exec ch s.world).2 := world_of_exec h ht rfl
  have hcreated : s'.tasks[i]? = some (.createJob u f ty o (.returned r)) := by
    obtain ⟨t', ht', hm⟩ := task_forward h ht
    cases hm with
    | waits _ hw => exact absurd rfl hw
    | @createJob _ _ _ _ _ _ aw res _ hn hr he =>
      cases hn
      subst he
      cases res with
      | ok v => exact ht'
      | error e =>
        rcases hr.of_error with ha | ⟨_, -, hx⟩
        · cases ha
        · cases hx
  subst hfile hu hty
  refine ⟨s.world.queue.length, ⟨⟨r.id, row.fileId, row.type, row.userId, o⟩, 0, .waiting⟩, o, ?_, Or.inl rfl,
    ⟨i, r, hcreated, hid.symm⟩, by rw [hid]⟩
  rw [hw]
  exact List.getElem?_concat_length

/-- A pending row that is in the queue stays there, when its last attempt marks it active. -/
theorem enqueued_step (hr : (platform cfg).Reach EnqueueKept s) (h : Stepped cfg s a s') {row : JobRow}
    (hrow : row ∈ s.world.db.jobs) (hp : row.status = .pending) (he : Enqueued s row) : Enqueued s' row := by
  obtain ⟨k, job, o, hk, hst, hc, hpay⟩ := he
  have hid : job.payload.jobId = row.id := congrArg JobPayload.jobId hpay
  obtain ⟨job', hk', hm⟩ := entry_forward h hk
  have settled {i k' : Nat} {data : JobPayload} {p : Attempt} (ht : s.tasks[i]? = some (.attempt k' data p false)) (hl : job.state = .active i) :
      data = job.payload ∧
        (p.stage job.payload = .starting ∨ ((∃ e, p.stage job.payload = .threw e) ∧ job.attemptsMade + 1 < attempts)) := by
    obtain ⟨p', hp'⟩ := (locked hr).lock hk hl
    rw [ht] at hp'
    cases hp'
    exact ⟨rfl, pendingAttempt hr k i job p row hk hl ht hrow hid.symm hp⟩
  refine ⟨k, job', o, hk', ?_, created_step h hc, hm.payload.trans hpay⟩
  cases hm with
  | stays => exact hst
  | delivered => exact Or.inr ⟨_, rfl⟩
  | stalled | retries => exact Or.inl rfl
  | finished ha ht ho hl =>
    obtain ⟨hd, hg⟩ := settled ht hl
    rcases outcome_eq (d := job.payload) ho with ⟨o, hst', -⟩ | ⟨e, -, he⟩
    · rw [hst'] at hg
      rcases hg with hg | ⟨⟨e, hg⟩, -⟩ <;> cases hg
    · cases he
  | gaveUp ha ht ho hl hmax =>
    obtain ⟨hd, hg⟩ := settled ht hl
    rcases outcome_eq (d := job.payload) ho with ⟨o, -, ho'⟩ | ⟨e, hst', -⟩
    · cases ho'
    · rw [hst'] at hg
      rcases hg with hg | ⟨-, hlt⟩
      · cases hg
      · omega

/-- Where the entries of pending jobs are kept, a call of `create` that adds its job does not fail. -/
theorem EnqueueKept.not_fails (hok : EnqueueKept s a) {i pick : Nat} {u f : Uuid} {ty : String} {o : Option JobOptions} {r : JobRow}
    (ht : s.tasks[i]? = some (.createJob u f ty o (.add r))) {payload : JobPayload} {e : Err} :
    ¬Settles s i pick a (.queueAdd payload) (.error e) := by
  intro hr
  rcases hr.of_error with rfl | ⟨ch, rfl, hx⟩
  · exact hok.added i pick e rfl u f ty o r ht
  · cases hx

/-- A step keeps the pending rows queued. -/
theorem pendingKept_step (hreach : (platform cfg).Reach EnqueueKept s) (hok : EnqueueKept s a)
    (h : Stepped cfg s a s') (hI : PendingKept s) :
    PendingKept s' := by
  intro row' hrow' hp'
  rcases pending_back hreach h hrow' hp' with ⟨row, hrow, hp, hid, hu, hfile, hty⟩ | ⟨i, u, f, ty, o, ch, hw, hn, rfl⟩
  · have same (he : Enqueued s' row) : Enqueued s' row' := by
      obtain ⟨k, job, o, hk, hstate, hc, he⟩ := he
      unfold Created at hc
      rw [hid, hu, hfile, hty] at hc he
      exact ⟨k, job, o, hk, hstate, hc, he⟩
    rcases hI row hrow hp with ⟨i, u, f, ty, o, r, ht, hrid⟩ | he
    · obtain ⟨t', ht', hm⟩ := task_forward h ht
      cases hm with
      | waits => exact Or.inl ⟨i, u, f, ty, o, r, ht', hrid.trans hid⟩
      | @createJob _ _ _ _ _ _ aw res pick hnext hr he =>
        cases hnext
        cases res with
        | error e => exact absurd hr (hok.not_fails ht)
        | ok v =>
          obtain ⟨ch, ha, -⟩ := hr.of_ok
          exact Or.inr (same (enqueued_of_add hreach h ha ht hrow hrid.symm))
    · exact Or.inr (same (enqueued_step hreach h hrow hp he))
  · obtain ⟨pick, ha⟩ := hw.action
    have hi : ch.id ∈ s'.world.issued := (issued_inv_step h (issued hreach)).jobs _ hrow'
    obtain ⟨r, ht, hrid⟩ := created_adds h ha hw.task hn hi
    exact Or.inl ⟨i, u, f, ty, o, r, ht, hrid⟩

/-- The invariant, in a run where the entries of pending jobs are kept. -/
theorem pendingKept (h : (platform cfg).Reach EnqueueKept s) : PendingKept s := by
  refine h.invariant ?_ (fun s a s' hreach hI hok hs => pendingKept_step hreach hok (step_cases hs) hI)
  rintro s rfl row hrow
  exact absurd hrow (Table.not_mem_empty row)

/-! ## A call of `create` by itself -/

/-- A call of `create` has inserted its row only where it is about to add the job or has returned. -/
theorem create_alone (hst : Stepped cfg s a s') (hok : EnqueueKept s a) {i : Nat} {u f : Uuid} {ty : String}
    {o : Option JobOptions} {p : JobService.Create} {jobs : Table JobRow.id} (hact : a.actor = some i)
    (ht : s.tasks[i]? = some (.createJob u f ty o p))
    (hI : s.world.db.jobs = jobs ∨ (∃ r, p = .add r) ∨ ∃ r, p = .returned r) :
    ∃ p', s'.tasks[i]? = some (.createJob u f ty o p') ∧
      (s'.world.db.jobs = jobs ∨ (∃ r, p' = .add r) ∨ ∃ r, p' = .returned r) := by
  obtain ⟨t', ht', hm⟩ := task_forward hst ht
  cases hm with
  | waits _ hw => exact absurd hact hw
  | @createJob _ _ _ _ _ p' aw res pick hn hr he =>
    refine ⟨p', ht', ?_⟩
    cases p with
    | findFile =>
      cases hn
      rcases hI with hI | ⟨r, hI⟩ | ⟨r, hI⟩
      · refine Or.inl (Eq.trans ?_ hI)
        cases hr with
        | exec ch => rw [world_of_exec hst ht rfl]; rfl
        | reject e => rw [world_of_reject hst]
      · cases hI
      · cases hI
    | create =>
      cases hn
      rcases hI with hI | ⟨r, hI⟩ | ⟨r, hI⟩
      · cases res with
        | error e =>
          refine Or.inl (Eq.trans ?_ hI)
          rcases hr.of_error with rfl | ⟨ch, rfl, hx⟩
          · rw [world_of_reject hst]
          · have hw : s'.world = ((Call.createJob ⟨u, f, ty, .pending, 0⟩).exec ch s.world).2 := world_of_exec hst ht rfl
            rw [hw, exec_error hx]
        | ok v => exact Or.inr (Or.inl ⟨v, he.symm⟩)
      · cases hI
      · cases hI
    | add r =>
      cases hn
      cases res with
      | error e => exact absurd hr (hok.not_fails ht)
      | ok v => exact Or.inr (Or.inr ⟨r, he.symm⟩)
    | returned r => cases hn
    | threw e => cases hn

/-! ## The result -/

/-- Every pending job is queued in every run where the entries of pending jobs are kept. -/
theorem pending_is_queued (cfg : Config) : PendingIsQueued cfg EnqueueKept := by
  refine ⟨fun s hr hno row hrow hp => ?_, fun s s' i u f ty o e _ ht hs ht' => ?_⟩
  · rcases pendingKept hr row hrow hp with ⟨i, u, f, ty, o, r, ht, -⟩ | he
    · rcases hno i u f ty o _ ht with ⟨job, h⟩ | ⟨e, h⟩ <;> cases h
    · exact he
  · have hall := hs.induct (fun s' => ∃ p, s'.tasks[i]? = some (.createJob u f ty o p) ∧
        (s'.world.db.jobs = s.world.db.jobs ∨ (∃ r, p = .add r) ∨ ∃ r, p = .returned r))
      ⟨_, ht, Or.inl rfl⟩ (by
        rintro s₁ a s₂ ⟨p, hp, hI⟩ ⟨hok, hact⟩ hst
        exact create_alone (step_cases hst) hok hact hp hI)
    obtain ⟨p, hp, hI⟩ := hall
    rw [ht'] at hp
    cases hp
    rcases hI with hI | ⟨r, hI⟩ | ⟨r, hI⟩
    · exact hI
    · cases hI
    · cases hI

/-- A creation whose `queue.add` fails in transit. -/
def lostEnqueue : List Action := Trace.upload ++
  [.request (.createJob (Trace.uuid 1) (Trace.uuid 10) "compress" none) (Trace.uuid 4), Trace.call 2 0, Trace.call 2 20, Trace.drop 2]

/-- The state a trace ends in has a pending row, an empty queue, and no call of `create` in progress. -/
def stuckPending (s : System) : Bool :=
  s.world.db.jobs.rows.any (fun row => row.status = .pending) && s.world.queue.isEmpty &&
    s.tasks.all (fun t => match t with
      | .createJob _ _ _ _ (.returned _) | .createJob _ _ _ _ (.threw _) => true
      | .createJob _ _ _ _ _ => false
      | _ => true)

/-- Not every pending job is queued in every run: `queue.add` fails, and the row stays. -/
theorem pending_not_queued : ¬ PendingIsQueued Config.default Lts.Free := by
  rintro ⟨h, -⟩
  have hrun : ((platform Config.default).run System.empty lostEnqueue).any stuckPending = true := by decide +kernel
  obtain ⟨s, hs, hp⟩ := Trace.reach hrun
  simp only [stuckPending, Bool.and_eq_true, List.isEmpty_iff] at hp
  obtain ⟨⟨hrow, hqueue⟩, htasks⟩ := hp
  obtain ⟨row, hrow, hpend⟩ := List.any_eq_true.1 hrow
  have hno : NoCreate s := by
    intro i u f ty o p hi
    have hcase := List.all_eq_true.1 htasks _ (List.mem_of_getElem? hi)
    cases p with
    | returned job => exact Or.inl ⟨job, rfl⟩
    | threw e => exact Or.inr ⟨e, rfl⟩
    | findFile | create | add => cases hcase
  obtain ⟨k, job, _, hk, -⟩ := h s hs hno row hrow (of_decide_eq_true hpend)
  rw [hqueue] at hk
  cases hk

end FileProcessing
