import FileProcessing.Lemmas.Steps

/-!
# Who is who

What holds of every run, whatever its steps: the ids in use have been issued, an attempt runs the payload of its entry, the
lock of an entry is held by an unsettled attempt of it, and a job has one entry at most, whose payload agrees with its row.
-/

namespace FileProcessing

variable {cfg : Config} {ok : System → Action → Prop} {s s' : System} {a : Action}

/-! ## `JobService.create` -/

/-- `create` reaches its `add` by an insert that took effect. -/
theorem create_adds {u f : Uuid} {ty : String} {o : Option JobOptions} {row : JobRow} {i : Nat} {t : Task}
    (h : Stepped cfg s a s') (ht : s.tasks[i]? = some t) (hm : TaskMoves cfg s a i t (.createJob u f ty o (.add row))) :
    (t = .createJob u f ty o (.add row) ∧ a.actor ≠ some i) ∨
      (t = .createJob u f ty o .create ∧ ∃ pick ch, a = .exec i pick ch ∧
        row = JobRepository.newRow s.world.now ch.id ⟨u, f, ty, .pending, 0⟩ ∧
        ch.id ∉ s.world.issued ∧ ch.id ∈ s'.world.issued ∧ (∃ file ∈ s.world.db.files, file.id = f) ∧
        ∀ x, x ∈ s'.world.db.jobs ↔ x ∈ s.world.db.jobs ∨ x = row) := by
  cases hm with
  | waits _ hw => exact Or.inl ⟨rfl, hw⟩
  | @createJob _ _ _ _ p _ aw r _ hn hr he =>
    cases p with
    | findFile =>
      cases hn
      cases r with
      | error e => cases he
      | ok v =>
        cases v with
        | none => cases he
        | some file =>
          dsimp only at he
          split at he
          · cases he
          · split at he <;> cases he
    | create =>
      cases hn
      refine Or.inr ⟨rfl, ?_⟩
      cases r with
      | error e => cases he
      | ok v =>
        cases he
        obtain ⟨ch, rfl, hv⟩ := hr.of_ok
        have hw : s'.world = ((Call.createJob ⟨u, f, ty, .pending, 0⟩).exec ch s.world).2 := world_of_exec h ht rfl
        rcases createJob_cases ch s.world ⟨u, f, ty, .pending, 0⟩ with ⟨e, he⟩ | ⟨jobs, hi, hfile, hmem, he⟩
        · rw [he] at hv
          cases hv
        · rw [he] at hv hw
          cases hv
          refine ⟨_, ch, rfl, rfl, hi, ?_, hfile, ?_⟩
          · rw [hw]
            exact List.mem_cons_self
          · rw [hw]
            exact hmem
    | add job =>
      cases hn
      cases r with
      | error e => cases he
      | ok v => cases he
    | returned job => cases hn
    | threw e => cases hn

/-- A call of `create` that has inserted its row is about to add it to the queue. -/
theorem created_adds {i pick : Nat} {ch : Choice} {u f : Uuid} {ty : String} {o : Option JobOptions} (h : Stepped cfg s a s')
    (ha : a = .exec i pick ch) (ht : s.tasks[i]? = some (.createJob u f ty o .create)) (hn : ch.id ∉ s.world.issued)
    (hi : ch.id ∈ s'.world.issued) :
    ∃ row, s'.tasks[i]? = some (.createJob u f ty o (.add row)) ∧ row.id = ch.id := by
  subst ha
  obtain ⟨t', ht', hm⟩ := task_forward h ht
  cases hm with
  | waits _ hw => exact absurd rfl hw
  | @createJob _ _ _ _ _ _ aw r _ hnext hr he =>
    cases hnext
    cases r with
    | error e =>
      rcases hr.of_error with ha | ⟨ch', ha, hx⟩ <;> cases ha
      have hworld : s'.world = ((Call.createJob ⟨u, f, ty, .pending, 0⟩).exec ch s.world).2 := world_of_exec h ht rfl
      rw [hworld, exec_error hx] at hi
      exact absurd hi hn
    | ok row =>
      subst he
      rcases create_adds h ht (.createJob rfl hr rfl) with ⟨he, -⟩ | ⟨-, _, ch', ha, hrow, -⟩
      · cases he
      · cases ha
        exact ⟨row, ht', congrArg JobRow.id hrow⟩

/-! ## The ids in use -/

/-- Every id a row, a payload or a call in progress names has been issued. -/
structure Issued (s : System) : Prop where
  files : ∀ r ∈ s.world.db.files, r.id ∈ s.world.issued
  jobs : ∀ r ∈ s.world.db.jobs, r.id ∈ s.world.issued
  creates : ∀ {i : Nat} {u f ty o row}, s.tasks[i]? = some (.createJob u f ty o (.add row)) →
    row.id ∈ s.world.issued ∧ f ∈ s.world.issued
  entries : ∀ {k : Nat} {job : BullJob}, s.world.queue[k]? = some job → job.payload.jobId ∈ s.world.issued ∧ job.payload.fileId ∈ s.world.issued

/-- A step keeps the ids in use issued. -/
theorem issued_inv_step (h : Stepped cfg s a s') (hI : Issued s) : Issued s' where
  files r' hr' := by
    rcases files_step h hr' with hr | ⟨i, t, ch, e, hw, ⟨r, hr, hf⟩ | ⟨data, -, rfl, -, hi, -⟩⟩
    · exact issued_step h (hI.files r' hr)
    · rw [hf.core.1]
      exact issued_step h (hI.files r hr)
    · exact hi
  jobs r' hr' := by
    rcases jobs_step h hr' with hr | ⟨i, t, ch, e, hw, ⟨r, hr, hf⟩ | ⟨data, -, rfl, -, hi, -⟩⟩
    · exact issued_step h (hI.jobs r' hr)
    · rw [hf.core.1]
      exact issued_step h (hI.jobs r hr)
    · exact hi
  creates {i u f ty o row} hj := by
    rcases task_back h hj with ⟨t, ht, hm⟩ | ⟨-, hs⟩
    · rcases create_adds h ht hm with ⟨rfl, -⟩ | ⟨rfl, pick, ch, -, rfl, -, hi, ⟨file, hfile, rfl⟩, -⟩
      · exact (hI.creates ht).imp (issued_step h) (issued_step h)
      · exact ⟨hi, issued_step h (hI.files file hfile)⟩
    · cases hs
  entries {k job'} hk := by
    rcases entry_back h hk with ⟨job, hk, hm⟩ | ⟨i, u, f, ty, o, row, ch, -, -, ht, rfl⟩
    · rw [hm.payload]
      exact (hI.entries hk).imp (issued_step h) (issued_step h)
    · exact (hI.creates ht).imp (issued_step h) (issued_step h)

/-- In every reachable state the ids in use have been issued. -/
theorem issued (h : (platform cfg).Reach ok s) : Issued s := by
  refine h.invariant ?_ (fun s a s' _ hI _ hs => issued_inv_step (step_cases hs) hI)
  rintro s rfl
  exact ⟨fun r hr => absurd hr (Table.not_mem_empty r), fun r hr => absurd hr (Table.not_mem_empty r),
    (fun h => nomatch h), (fun h => nomatch h)⟩

/-! ## Attempts and locks -/

/-- An attempt runs the payload of its entry, and an entry is locked by an unsettled attempt of it. -/
structure Locked (s : System) : Prop where
  entry : ∀ {i k : Nat} {data p b}, s.tasks[i]? = some (.attempt k data p b) →
    ∃ job, s.world.queue[k]? = some job ∧ job.payload = data
  lock : ∀ {k i : Nat} {job : BullJob}, s.world.queue[k]? = some job → job.state = .active i →
    ∃ p, s.tasks[i]? = some (.attempt k job.payload p false)

/-- A step keeps attempts and locks together. -/
theorem locked_step (h : Stepped cfg s a s') (hI : Locked s) : Locked s' where
  entry {i k data p b} hj := by
    have hold {p b} (ht : s.tasks[i]? = some (.attempt k data p b)) : ∃ job, s'.world.queue[k]? = some job ∧ job.payload = data := by
      obtain ⟨job, hk, rfl⟩ := hI.entry ht
      obtain ⟨job', hk', hm⟩ := entry_forward h hk
      exact ⟨job', hk', hm.payload⟩
    rcases task_back h hj with ⟨t, ht, hm⟩ | ⟨-, hs⟩
    · cases hm with
      | waits | attempt | settled => exact hold ht
    · cases hs with
      | @attempt _ _ _ job ha hk hw hd hp =>
        obtain ⟨job', hk', hm⟩ := entry_forward h hk
        exact ⟨job', hk', hm.payload.trans hd.symm⟩
  lock {k i job'} hk hs := by
    rcases entry_back h hk with ⟨job, hk₀, hm⟩ | ⟨_, _, _, _, _, _, _, -, -, -, rfl⟩
    · rw [hm.payload]
      cases hm with
      | stays hl =>
        obtain ⟨p, hp⟩ := hI.lock hk₀ hs
        obtain ⟨t', ht', hm'⟩ := task_forward h hp
        cases hm' with
        | waits => exact ⟨p, ht'⟩
        | attempt => exact ⟨_, ht'⟩
        | settled ho ha => exact absurd hs (hl ha hp)
      | delivered ha hw =>
        cases hs
        subst ha
        exact ⟨_, deliver_spawns h hk₀⟩
      | stalled | finished | retries | gaveUp => cases hs
    · cases hs

/-- In every reachable state an attempt runs the payload of its entry, and a lock is held by an unsettled attempt. -/
theorem locked (h : (platform cfg).Reach ok s) : Locked s := by
  refine h.invariant ?_ (fun s a s' _ hI _ hs => locked_step (step_cases hs) hI)
  rintro s rfl
  exact ⟨fun h => (nomatch h), fun h => (nomatch h)⟩

/-! ## A job has one entry -/

/-- No two calls of `create` add the same job, none adds one that is in the queue, and no job is there twice. -/
structure OneEntry (s : System) : Prop where
  creates : ∀ {i j : Nat} {u f ty o row u' f' ty' o' row'}, s.tasks[i]? = some (.createJob u f ty o (.add row)) →
    s.tasks[j]? = some (.createJob u' f' ty' o' (.add row')) → row.id = row'.id → i = j
  fresh : ∀ {i k : Nat} {u f ty o row} {job : BullJob}, s.tasks[i]? = some (.createJob u f ty o (.add row)) →
    s.world.queue[k]? = some job → job.payload.jobId ≠ row.id
  entries : ∀ {k l : Nat} {job job' : BullJob}, s.world.queue[k]? = some job → s.world.queue[l]? = some job' →
    job.payload.jobId = job'.payload.jobId → k = l

/-- A step keeps the entries of a job unique. -/
theorem oneEntry_step (h : Stepped cfg s a s') (hd : Issued s) (hI : OneEntry s) : OneEntry s' where
  creates {i j u f ty o row u' f' ty' o' row'} hi hj he := by
    rcases task_back h hi with ⟨t, ht, hm⟩ | ⟨-, hs⟩
    swap
    · cases hs
    rcases task_back h hj with ⟨t', ht', hm'⟩ | ⟨-, hs⟩
    swap
    · cases hs
    rcases create_adds h ht hm with ⟨rfl, -⟩ | ⟨rfl, pick, ch, ha, rfl, hn, -⟩
    · rcases create_adds h ht' hm' with ⟨rfl, -⟩ | ⟨rfl, pick, ch, -, rfl, hn, -⟩
      · exact hI.creates ht ht' he
      · exact absurd ((hd.creates ht).1) (he ▸ hn)
    · rcases create_adds h ht' hm' with ⟨rfl, -⟩ | ⟨rfl, pick', ch', ha', -⟩
      · exact absurd ((hd.creates ht').1) (he ▸ hn)
      · rw [ha] at ha'
        cases ha'
        rfl
  fresh {i k u f ty o row job'} hi hk he := by
    rcases task_back h hi with ⟨t, ht, hm⟩ | ⟨-, hs⟩
    swap
    · cases hs
    rcases entry_back h hk with ⟨job, hk, hmk⟩ | ⟨l, u', f', ty', o', row', ch', -, ⟨pick', ha'⟩, hl, rfl⟩
    · rw [hmk.payload] at he
      rcases create_adds h ht hm with ⟨rfl, -⟩ | ⟨rfl, pick, ch, -, rfl, hn, -⟩
      · exact hI.fresh ht hk he
      · have hmem := (hd.entries hk).1
        rw [he] at hmem
        exact hn hmem
    · rcases create_adds h ht hm with ⟨rfl, hw⟩ | ⟨rfl, pick, ch, ha, -⟩
      · rw [hI.creates ht hl he.symm, ha'] at hw
        exact hw rfl
      · rw [ha] at ha'
        cases ha'
        rw [ht] at hl
        cases hl
  entries {k l job job'} hk hl he := by
    rcases entry_back h hk with ⟨job₀, hk₀, hm⟩ | ⟨i, u, f, ty, o, row, ch, rfl, -, hi, rfl⟩
    · rcases entry_back h hl with ⟨job₁, hl₁, hm'⟩ | ⟨i, u, f, ty, o, row, ch, -, -, hi, rfl⟩
      · rw [hm.payload, hm'.payload] at he
        exact hI.entries hk₀ hl₁ he
      · rw [hm.payload] at he
        exact absurd he (hI.fresh hi hk₀)
    · rcases entry_back h hl with ⟨job₁, hl₁, hm'⟩ | ⟨i, u, f, ty, o, row, ch, rfl, -⟩
      · rw [hm'.payload] at he
        exact absurd he.symm (hI.fresh hi hl₁)
      · rfl

/-- In every reachable state a job has one entry at most. -/
theorem oneEntry (h : (platform cfg).Reach ok s) : OneEntry s := by
  refine h.invariant ?_ (fun s a s' hr hI _ hs => oneEntry_step (step_cases hs) (issued hr) hI)
  rintro s rfl
  exact ⟨fun h => (nomatch h), fun h => (nomatch h), fun h => (nomatch h)⟩

/-- A job agrees with the row of its id, and the row a `create` is about to enqueue agrees with the call. -/
structure Coherent (s : System) : Prop where
  entries : ∀ {k : Nat} {job : BullJob} {row : JobRow}, s.world.queue[k]? = some job → row ∈ s.world.db.jobs →
    row.id = job.payload.jobId → row.fileId = job.payload.fileId ∧ row.userId = job.payload.userId ∧ row.type = job.payload.type
  creates : ∀ {i : Nat} {u f ty o r row}, s.tasks[i]? = some (.createJob u f ty o (.add r)) → row ∈ s.world.db.jobs →
    row.id = r.id → row.fileId = f ∧ row.userId = u ∧ row.type = ty

/-- A step keeps jobs and their rows in agreement. -/
theorem coherent_step (h : Stepped cfg s a s') (hd : Issued s) (hI : Coherent s) : Coherent s' where
  entries {k job' row'} hk hr he := by
    rcases entry_back h hk with ⟨job, hk, hm⟩ | ⟨l, u, f, ty, o, r, ch, -, ⟨pick, rfl⟩, hl, rfl⟩
    · rw [hm.payload] at he ⊢
      rcases jobs_step h hr with hr | ⟨i, t, ch, e, hw, ⟨row, hr, hf⟩ | ⟨data, -, rfl, hn, -⟩⟩
      · exact hI.entries hk hr he
      · obtain ⟨hid, hu, hfile, hty⟩ := hf.core
        rw [hu, hfile, hty]
        exact hI.entries hk hr (hid ▸ he)
      · exact absurd (hd.entries hk).1 (he ▸ hn)
    · rcases jobs_step h hr with hr | ⟨i, t, ch, e, hw, ⟨row, hr, hf⟩ | ⟨data, -, rfl, hn, -⟩⟩
      · exact hI.creates hl hr he
      · obtain ⟨hid, hu, hfile, hty⟩ := hf.core
        rw [hu, hfile, hty]
        exact hI.creates hl hr (hid ▸ he)
      · have hid : ch.id = r.id := he
        exact absurd (hd.creates hl).1 (hid ▸ hn)
  creates {i u f ty o r row'} hi hr he := by
    rcases task_back h hi with ⟨t, ht, hm⟩ | ⟨-, hs⟩
    swap
    · cases hs
    rcases create_adds h ht hm with ⟨rfl, -⟩ | ⟨rfl, pick, ch, ha, rfl, hn, -, -, hmem⟩
    · rcases jobs_step h hr with hr | ⟨i, t, ch, e, hw, ⟨row, hr, hf⟩ | ⟨data, -, rfl, hn, -⟩⟩
      · exact hI.creates ht hr he
      · obtain ⟨hid, hu, hfile, hty⟩ := hf.core
        rw [hu, hfile, hty]
        exact hI.creates ht hr (hid ▸ he)
      · exact absurd (hd.creates ht).1 (he ▸ hn)
    · rcases (hmem row').1 hr with hr | rfl
      · exact absurd (hd.jobs row' hr) (he ▸ hn)
      · exact ⟨rfl, rfl, rfl⟩

/-- In every reachable state a job agrees with its row. -/
theorem coherent (h : (platform cfg).Reach ok s) : Coherent s := by
  refine h.invariant ?_ (fun s a s' hr hI _ hs => coherent_step (step_cases hs) (issued hr) hI)
  rintro s rfl
  exact ⟨fun h => (nomatch h), fun h => (nomatch h)⟩

end FileProcessing
