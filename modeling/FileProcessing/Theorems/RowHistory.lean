import FileProcessing.Lemmas.Reports
import FileProcessing.Theorems.CompletedTruth
import FileProcessing.Theorems.LiveReservation

/-!
# The history of a row

What a run does to one row of `files` or `jobs`: most columns are written once, a row that is removed does not come back, a job
leaves `pending` once and is untouched until then, and its progress is a value its processor reports. No row is dated in the future.
-/

namespace FileProcessing

variable {cfg : Config} {ok : System → Action → Prop} {s s' : System} {a : Action}

/-- The status of a file moves from pending to ready to deleted. -/
def FileStatus.To (status status' : FileStatus) : Prop :=
  status' = status ∨ status' = .deleted ∨ (status = .pending ∧ status' = .ready)

/-- A row of `files`, and the row it was before. -/
structure FileRow.Later (file file' : FileRow) : Prop where
  userId : file'.userId = file.userId
  originalName : file'.originalName = file.originalName
  mimeType : file'.mimeType = file.mimeType
  size : file'.size = file.size
  storagePath : file'.storagePath = file.storagePath
  status : file.status.To file'.status
  createdAt : file'.createdAt = file.createdAt

/-- A row of `jobs`, and the row it was before. -/
structure JobRow.Later (job job' : JobRow) : Prop where
  fileId : job'.fileId = job.fileId
  userId : job'.userId = job.userId
  type : job'.type = job.type
  createdAt : job'.createdAt = job.createdAt
  pending : job'.status = .pending → job' = job

/-- The values a processor reports for a job of the type, and those its row begins and ends with. -/
def progressValues (type : String) : List Nat := if Implemented type then [0, 33, 66, 100] else [0, 20, 40, 60, 80, 100]

/-- A job whose row is pending has done nothing. -/
def JobRow.Untouched (job : JobRow) : Prop :=
  job.progress = 0 ∧ job.outputPath = none ∧ job.outputFileId = none ∧ job.errorMessage = none ∧ job.updatedAt = job.createdAt

/-- The history of the rows, between any two states of a run. -/
structure RowHistory (cfg : Config) : Prop where
  files : ∀ s s', (platform cfg).Reach Lts.Free s → (platform cfg).Steps Lts.Free s s' →
    ∀ file ∈ s.world.db.files, ∀ file' ∈ s'.world.db.files, file'.id = file.id → file.Later file'
  jobs : ∀ s s', (platform cfg).Reach Lts.Free s → (platform cfg).Steps Lts.Free s s' →
    ∀ job ∈ s.world.db.jobs, ∀ job' ∈ s'.world.db.jobs, job'.id = job.id → job.Later job'
  times : ∀ s, (platform cfg).Reach Lts.Free s →
    (∀ file ∈ s.world.db.files, file.createdAt ≤ s.world.now ∧ file.updatedAt ≤ s.world.now) ∧
      ∀ job ∈ s.world.db.jobs, job.createdAt ≤ s.world.now ∧ job.updatedAt ≤ s.world.now
  gone : ∀ s s' id, (platform cfg).Reach Lts.Free s → (platform cfg).Steps Lts.Free s s' → id ∈ s.world.issued →
    ((∀ file ∈ s.world.db.files, file.id ≠ id) → ∀ file ∈ s'.world.db.files, file.id ≠ id) ∧
      ((∀ job ∈ s.world.db.jobs, job.id ≠ id) → ∀ job ∈ s'.world.db.jobs, job.id ≠ id)
  untouched : ∀ s, (platform cfg).Reach Lts.Free s → ∀ job ∈ s.world.db.jobs, job.status = .pending → job.Untouched
  progress : ∀ s, (platform cfg).Reach Lts.Free s → ∀ job ∈ s.world.db.jobs, job.progress ∈ progressValues job.type

/-! ## Times -/

/-- No row is newer than the clock. -/
structure RowsDated (s : System) : Prop where
  files : ∀ file ∈ s.world.db.files, file.createdAt ≤ s.world.now ∧ file.updatedAt ≤ s.world.now
  jobs : ∀ job ∈ s.world.db.jobs, job.createdAt ≤ s.world.now ∧ job.updatedAt ≤ s.world.now

/-- A write leaves `updated_at` or sets it to the time. -/
theorem FileWrite.updatedAt {now : Time} {e : Effect} {r r' : FileRow} (h : FileWrite now e r r') :
    r'.updatedAt = r.updatedAt ∨ r'.updatedAt = now := by
  cases h with
  | same => exact Or.inl rfl
  | deleted | ready => exact Or.inr rfl

theorem JobWrite.updatedAt {now : Time} {e : Effect} {r r' : JobRow} (h : JobWrite now e r r') :
    r'.updatedAt = r.updatedAt ∨ r'.updatedAt = now := by
  cases h with
  | same | cleared => exact Or.inl rfl
  | progress | status | cancelled => exact Or.inr rfl

theorem JobWrite.createdAt {now : Time} {e : Effect} {r r' : JobRow} (h : JobWrite now e r r') : r'.createdAt = r.createdAt := by
  cases h <;> rfl

/-- The times of a row after a write. -/
theorem dated_write {now now' created updated created' updated' : Time} (hnow : now ≤ now') (h : created ≤ now ∧ updated ≤ now)
    (hc : created' = created) (hu : updated' = updated ∨ updated' = now) : created' ≤ now' ∧ updated' ≤ now' := by
  obtain ⟨h1, h2⟩ := h
  subst hc
  refine ⟨Int.le_trans h1 hnow, ?_⟩
  rcases hu with rfl | rfl
  · exact Int.le_trans h2 hnow
  · exact hnow

theorem rowsDated_step (h : Stepped cfg s a s') (hI : RowsDated s) : RowsDated s' where
  files file hfile := by
    rcases files_step h hfile with hold | ⟨i, t, ch, e, hw, ⟨r, hr, hf⟩ | ⟨data, rfl, rfl, -⟩⟩
    · exact dated_write (now_step h) (hI.files file hold) rfl (Or.inl rfl)
    · exact dated_write (now_step h) (hI.files r hr) hf.createdAt hf.updatedAt
    · exact ⟨now_step h, now_step h⟩
  jobs job hjob := by
    rcases jobs_step h hjob with hold | ⟨i, t, ch, e, hw, ⟨r, hr, hf⟩ | ⟨data, rfl, rfl, -⟩⟩
    · exact dated_write (now_step h) (hI.jobs job hold) rfl (Or.inl rfl)
    · exact dated_write (now_step h) (hI.jobs r hr) hf.createdAt hf.updatedAt
    · exact ⟨now_step h, now_step h⟩

theorem rowsDated (h : (platform cfg).Reach ok s) : RowsDated s := by
  refine h.invariant ?_ (fun s a s' _ hI _ hs => rowsDated_step (step_cases hs) hI)
  rintro s rfl
  exact ⟨fun _ hf => (nomatch hf), fun _ hj => (nomatch hj)⟩

/-! ## The files -/

theorem FileStatus.To.trans {x y z : FileStatus} (h : x.To y) (h' : y.To z) : x.To z := by
  rcases h' with rfl | rfl | ⟨rfl, rfl⟩
  · exact h
  · exact Or.inr (Or.inl rfl)
  · rcases h with rfl | h | ⟨-, h⟩
    · exact Or.inr (Or.inr ⟨rfl, rfl⟩)
    · cases h
    · cases h

theorem FileRow.Later.refl (file : FileRow) : file.Later file := ⟨rfl, rfl, rfl, rfl, rfl, Or.inl rfl, rfl⟩

theorem FileRow.Later.trans {x y z : FileRow} (h : x.Later y) (h' : y.Later z) : x.Later z where
  userId := h'.userId.trans h.userId
  originalName := h'.originalName.trans h.originalName
  mimeType := h'.mimeType.trans h.mimeType
  size := h'.size.trans h.size
  storagePath := h'.storagePath.trans h.storagePath
  status := h.status.trans h'.status
  createdAt := h'.createdAt.trans h.createdAt

/-- A write makes a later row. -/
theorem FileWrite.later {now : Time} {e : Effect} {r r' : FileRow} (h : FileWrite now e r r') : r.Later r' := by
  cases h with
  | same => exact .refl r
  | deleted => exact ⟨rfl, rfl, rfl, rfl, rfl, Or.inr (Or.inl rfl), rfl⟩
  | ready _ hp => exact ⟨rfl, rfl, rfl, rfl, rfl, Or.inr (Or.inr ⟨hp, rfl⟩), rfl⟩

/-- A row with an id that was issued is a later version of one that was there. -/
theorem file_later (h : Stepped cfg s a s') {file' : FileRow} (hfile : file' ∈ s'.world.db.files)
    (hid : file'.id ∈ s.world.issued) : ∃ file ∈ s.world.db.files, file.id = file'.id ∧ file.Later file' := by
  rcases files_step h hfile with hold | ⟨i, t, ch, e, hw, ⟨r, hrow, hf⟩ | ⟨data, rfl, rfl, hn, -⟩⟩
  · exact ⟨file', hold, rfl, .refl file'⟩
  · exact ⟨r, hrow, hf.core.1.symm, hf.later⟩
  · exact absurd hid hn

/-! ## The jobs -/

theorem JobRow.Later.refl (job : JobRow) : job.Later job := ⟨rfl, rfl, rfl, rfl, fun _ => rfl⟩

theorem JobRow.Later.trans {x y z : JobRow} (h : x.Later y) (h' : y.Later z) : x.Later z where
  fileId := h'.fileId.trans h.fileId
  userId := h'.userId.trans h.userId
  type := h'.type.trans h.type
  createdAt := h'.createdAt.trans h.createdAt
  pending hp := by
    have heq := h'.pending hp
    subst heq
    exact h.pending hp

/-! ## What an attempt reports -/

/-- The attempt is one of the processor that the job's type names. -/
def Attempt.Fits (data : JobPayload) : Attempt → Prop
  | .compress _ | .convert _ => Implemented data.type
  | .default p => ¬ Implemented data.type ∧ p.InLoop

theorem start_fits (data : JobPayload) : (Attempt.start data).Fits data := by
  unfold Attempt.start
  split
  · rename_i hc
    exact Or.inl hc
  · rename_i hc
    split
    · rename_i hf
      exact Or.inr hf
    · rename_i hf
      exact ⟨fun h => h.elim hc hf, trivial⟩

theorem fits_next {data : JobPayload} {pick : Nat} {p : Attempt} {aw : Await (Attempt × List Report)}
    (h : p.next data pick = some aw) (hp : p.Fits data) (res : Except Err aw.α) : (aw.resume res).1.Fits data := by
  cases p with
  | compress p | convert p =>
    obtain ⟨aw, -, rfl⟩ := Option.map_eq_some_iff.1 h
    exact hp
  | default p =>
    obtain ⟨aw, haw, rfl⟩ := Option.map_eq_some_iff.1 h
    exact ⟨hp.1, defaultProcess_inLoop haw hp.2 res⟩

theorem mem_progressValues_image {type : String} (h : Implemented type) {n : Nat} (hn : n = 0 ∨ n = 33 ∨ n = 66 ∨ n = 100) :
    n ∈ progressValues type := by
  rw [progressValues, if_pos h]
  rcases hn with rfl | rfl | rfl | rfl <;> decide

theorem mem_progressValues_stage {type : String} (h : ¬ Implemented type) {i : Nat} (hi : i ≤ stages) :
    stageProgress i ∈ progressValues type := by
  rw [progressValues, if_neg h]
  unfold stages at hi
  have hcases : i = 0 ∨ i = 1 ∨ i = 2 ∨ i = 3 ∨ i = 4 ∨ i = 5 := by omega
  rcases hcases with rfl | rfl | rfl | rfl | rfl | rfl <;> decide

theorem mem_progressValues_ends (type : String) : 0 ∈ progressValues type ∧ 100 ∈ progressValues type := by
  unfold progressValues
  split <;> exact ⟨by decide, by decide⟩

/-- What an attempt reports while it works: to the row, and in the calls a failed `Promise.all` leaves behind. -/
structure ReportsValues (data : JobPayload) (g : Stage) (aw : Await (Attempt × List Report)) : Prop where
  written : ∀ (j : Uuid) (n : Nat), aw.call.effect = .updateProgress j n → n ∈ progressValues data.type
  left : ∀ (res : Except Err aw.α), ∀ r ∈ (aw.resume res).2, g = .working ∧ r.jobId = data.jobId ∧
    r.progress ∈ progressValues data.type

/-- An image processor reports 33 and 66. -/
theorem imageProcess_values {P : ImageProcessor} {data : JobPayload} {pick : Nat} {p : ImageProcess}
    {aw : Await (ImageProcess × List Report)} (h : imageProcess P data pick p = some aw) (hi : Implemented data.type) :
    (∀ (j : Uuid) (n : Nat), aw.call.effect = .updateProgress j n → n ∈ progressValues data.type) ∧
      ∀ (res : Except Err aw.α), ∀ r ∈ (aw.resume res).2, p.stageOf P data = .working ∧ r.jobId = data.jobId ∧
        r.progress ∈ progressValues data.type := by
  have hreport {n : Nat} (hn : n = 0 ∨ n = 33 ∨ n = 66 ∨ n = 100) {todo : List ReportTarget} {pending : List ReportTarget → ImageProcess}
      {done : ImageProcess} (h : promiseAll data.jobId n todo pick pending done .threw = some aw) :
      (∀ (j : Uuid) (m : Nat), aw.call.effect = .updateProgress j m → m ∈ progressValues data.type) ∧
        ∀ (res : Except Err aw.α), ∀ r ∈ (aw.resume res).2, Stage.working = .working ∧ r.jobId = data.jobId ∧
          r.progress ∈ progressValues data.type := by
    refine ⟨fun j m he => promiseAll_progress h he ▸ mem_progressValues_image hi hn, fun res r hr => ?_⟩
    obtain ⟨hj, hp⟩ := promiseAll_leaves h hr
    exact ⟨rfl, hj, hp ▸ mem_progressValues_image hi hn⟩
  cases p with
  | report33 f todo => exact hreport (Or.inr (Or.inl rfl)) h
  | report66 f length todo => exact hreport (Or.inr (Or.inr (Or.inl rfl))) h
  | returned | threw => cases h
  | findInput =>
    cases h
    refine ⟨fun j n he => (nomatch he), fun res r hr => ?_⟩
    cases res with
    | error e => cases hr
    | ok v => cases v <;> cases hr
  | _ =>
    cases h
    refine ⟨fun j n he => (nomatch he), fun res r hr => ?_⟩
    cases res <;> cases hr

/-- The default processor reports its stages. -/
theorem defaultProcess_values {data : JobPayload} {pick : Nat} {p : DefaultProcess} {aw : Await (DefaultProcess × List Report)}
    (h : defaultProcess data pick p = some aw) (hi : ¬ Implemented data.type) (hp : p.InLoop) :
    (∀ (j : Uuid) (n : Nat), aw.call.effect = .updateProgress j n → n ∈ progressValues data.type) ∧
      ∀ (res : Except Err aw.α), ∀ r ∈ (aw.resume res).2, p.stageOf = .working ∧ r.jobId = data.jobId ∧
        r.progress ∈ progressValues data.type := by
  cases p with
  | report i todo =>
    refine ⟨fun j n he => promiseAll_progress h he ▸ mem_progressValues_stage hi hp, fun res r hr => ?_⟩
    obtain ⟨hj, hn⟩ := promiseAll_leaves h hr
    exact ⟨rfl, hj, hn ▸ mem_progressValues_stage hi hp⟩
  | returned | threw => cases h
  | _ =>
    cases h
    refine ⟨fun j n he => (nomatch he), fun res r hr => ?_⟩
    cases res <;> cases hr

/-- An attempt reports the values of its processor. -/
theorem attempt_values {data : JobPayload} {pick : Nat} {p : Attempt} {aw : Await (Attempt × List Report)}
    (h : p.next data pick = some aw) (hp : p.Fits data) : ReportsValues data (p.stage data) aw := by
  cases p with
  | compress p | convert p =>
    obtain ⟨aw, haw, rfl⟩ := Option.map_eq_some_iff.1 h
    obtain ⟨hw, hl⟩ := imageProcess_values haw hp
    exact ⟨hw, hl⟩
  | default p =>
    obtain ⟨aw, haw, rfl⟩ := Option.map_eq_some_iff.1 h
    obtain ⟨hw, hl⟩ := defaultProcess_values haw hp.1 hp.2
    exact ⟨hw, hl⟩

/-! ## A job that has begun -/

/-- The job was inserted, and no row of it is pending any more. -/
def NotPending (s : System) (jobId : Uuid) : Prop :=
  jobId ∈ s.world.issued ∧ ∀ row ∈ s.world.db.jobs, row.id = jobId → row.status ≠ .pending

/-- No update sets a row back to pending. -/
theorem not_pending_of_status (hr : (platform cfg).Reach ok s) {i : Nat} {t : Task} {ch : Choice} {j : Uuid} {st : JobStatus}
    {ex : JobExtra} (hw : Wrote s a i t ch (.updateStatus j st ex)) : st ≠ .pending := by
  rcases status_writer hr hw with ⟨k, data, p, -, -, ⟨-, rfl⟩ | ⟨o, -, rfl⟩⟩ | ⟨m, -, rfl⟩ <;> exact nofun

theorem notPending_step (hr : (platform cfg).Reach ok s) (h : Stepped cfg s a s') {jobId : Uuid} (hI : NotPending s jobId) :
    NotPending s' jobId := by
  refine ⟨issued_step h hI.1, fun row hrow hid => ?_⟩
  rcases jobs_step h hrow with hold | ⟨i, t, ch, e, hw, ⟨r, hr₀, hf⟩ | ⟨data, rfl, rfl, hn, -⟩⟩
  · exact hI.2 row hold hid
  · have hst := hI.2 r hr₀ (hf.core.1.symm.trans hid)
    cases hf with
    | same | cleared | progress => exact hst
    | status _ st ex => exact not_pending_of_status hr hw
    | cancelled => exact nofun
  · have hid' : ch.id = jobId := hid
    exact absurd (hid' ▸ hI.1) hn

/-- The types of the rows of a job do not change. -/
theorem type_step (h : Stepped cfg s a s') {jobId : Uuid} (Q : String → Prop) (hi : jobId ∈ s.world.issued)
    (hI : ∀ row ∈ s.world.db.jobs, row.id = jobId → Q row.type) : ∀ row ∈ s'.world.db.jobs, row.id = jobId → Q row.type := by
  intro row hrow hid
  rcases jobs_step h hrow with hold | ⟨i, t, ch, e, hw, ⟨r, hr₀, hf⟩ | ⟨data, rfl, rfl, hn, -⟩⟩
  · exact hI row hold hid
  · obtain ⟨hid₀, -, -, hty⟩ := hf.core
    exact hty ▸ hI r hr₀ (hid₀.symm.trans hid)
  · have hid' : ch.id = jobId := hid
    exact absurd (hid' ▸ hi) hn

/-- An attempt fits its job, which is not pending once the attempt has started; so is the job of a report that one left behind, which
is of a value of the job's processor. -/
structure Begun (s : System) : Prop where
  fits : ∀ (i k : Nat) data p b, s.tasks[i]? = some (.attempt k data p b) → p.Fits data
  attempts : ∀ (i k : Nat) data p b, s.tasks[i]? = some (.attempt k data p b) → p.stage data = .starting ∨
    (∃ e, p.stage data = .threw e) ∨ NotPending s data.jobId
  reports : ∀ (i : Nat) r, s.tasks[i]? = some (.report r false) → NotPending s r.jobId ∧
    ∀ row ∈ s.world.db.jobs, row.id = r.jobId → r.progress ∈ progressValues row.type

/-- The job of an attempt was inserted. -/
theorem attempt_issued (hr : (platform cfg).Reach ok s) {i k : Nat} {data : JobPayload} {p : Attempt} {b : Bool}
    (ht : s.tasks[i]? = some (.attempt k data p b)) : data.jobId ∈ s.world.issued := by
  obtain ⟨job, hk, rfl⟩ := (locked hr).entry ht
  exact ((issued hr).entries hk).1

/-- An attempt that settles a call has thrown, or its job is no longer pending. -/
theorem begun_of_attempt (hr : (platform cfg).Reach ok s) (h : Stepped cfg s a s') (hI : Begun s) {i k pick : Nat} {data : JobPayload}
    {p : Attempt} {b : Bool} {aw : Await (Attempt × List Report)} {res : Except Err aw.α} (ht : s.tasks[i]? = some (.attempt k data p b))
    (hn : p.next data pick = some aw) (hs : Settles s i pick a aw.call res) :
    (∃ e, (aw.resume res).1.stage data = .threw e) ∨ NotPending s' data.jobId := by
  obtain ⟨hcall, hstep⟩ := attempt_stage hn
  have hstep := hstep res
  rcases hI.attempts i k data p b ht with hg | ⟨e, hg⟩ | hg
  · rw [hg] at hcall hstep
    cases res with
    | error e => exact Or.inl ⟨e, hstep.of_error⟩
    | ok v =>
      obtain ⟨ch, rfl, hx⟩ := hs.of_ok
      obtain ⟨aw', hn', hworld, -⟩ := attempt_acts h ht
      cases hn.symm.trans hn'
      refine Or.inr ⟨issued_step h (attempt_issued hr ht), fun row hrow hid => ?_⟩
      rw [hworld] at hrow
      generalize hf : aw.call.effect = f at hcall
      cases hcall
      rw [updated_rows hf hx hrow hid]
      exact nofun
  · rw [hg] at hcall
    cases hcall
  · exact Or.inr (notPending_step hr h hg)

theorem begun_step (hr : (platform cfg).Reach ok s) (h : Stepped cfg s a s') (hI : Begun s) : Begun s' where
  fits i k data p b hi := by
    rcases task_back h hi with ⟨t, ht, hm⟩ | ⟨-, hsp⟩
    · cases hm with
      | waits | settled => exact hI.fits i k data p _ ht
      | @attempt _ _ p₀ _ _ aw r _ hn _ he => exact he ▸ fits_next hn (hI.fits i k data p₀ b ht) r
    · cases hsp with
      | attempt _ _ _ _ hp => exact hp ▸ start_fits data
  attempts i k data p b hi := by
    rcases task_back h hi with ⟨t, ht, hm⟩ | ⟨-, hsp⟩
    · cases hm with
      | waits | settled => exact (hI.attempts i k data p _ ht).imp_right (Or.imp_right (notPending_step hr h))
      | attempt hn hs he => exact Or.inr (he ▸ begun_of_attempt hr h hI ht hn hs)
    · cases hsp with
      | attempt _ _ _ _ hp => exact Or.inl (hp ▸ stage_start data)
  reports i r hi := by
    rcases report_back h hi with hold | ⟨j, k, data, p, b, pick, aw, res, hj, hn, hmem⟩
    · obtain ⟨hnot, hval⟩ := hI.reports i r hold
      exact ⟨notPending_step hr h hnot, type_step h (r.progress ∈ progressValues ·) hnot.1 hval⟩
    · obtain ⟨hg, hid, hval⟩ := (attempt_values hn (hI.fits j k data p b hj)).left res r hmem
      have hnot : NotPending s data.jobId := by
        rcases hI.attempts j k data p b hj with hs | ⟨e, hs⟩ | hnot
        · cases hg.symm.trans hs
        · cases hg.symm.trans hs
        · exact hnot
      refine hid ▸ ⟨notPending_step hr h hnot, type_step h (r.progress ∈ progressValues ·) hnot.1 (fun row hrow hrid => ?_)⟩
      obtain ⟨job, hk, rfl⟩ := (locked hr).entry hj
      exact ((coherent hr).entries hk hrow hrid).2.2 ▸ hval

theorem begun (h : (platform cfg).Reach ok s) : Begun s := by
  refine h.invariant ?_ (fun s a s' hr hI _ hs => begun_step hr (step_cases hs) hI)
  rintro s rfl
  exact ⟨fun _ _ _ _ _ hi => (nomatch hi), fun _ _ _ _ _ hi => (nomatch hi), fun _ _ hi => (nomatch hi)⟩

/-- The progress a task writes is a value of the job's processor, and the job is no longer pending. -/
theorem progress_written (hr : (platform cfg).Reach ok s) {i : Nat} {t : Task} {ch : Choice} {row : JobRow} {n : Nat}
    (hw : Wrote s a i t ch (.updateProgress row.id n)) (hrow : row ∈ s.world.db.jobs) :
    row.status ≠ .pending ∧ n ∈ progressValues row.type := by
  obtain ⟨cfg', pick, aw, hn, he⟩ := hw.call
  have hwr := hw.writes
  have hI := begun hr
  generalize hid : row.id = j at hw hwr he
  cases hwr with
  | reportProgress r =>
    obtain ⟨hnot, hval⟩ := hI.reports i r hw.task
    exact ⟨hnot.2 row hrow hid, hval row hrow hid⟩
  | attempt k data p b _ hc =>
    obtain ⟨aw, haw, rfl⟩ := Option.map_eq_some_iff.1 hn
    generalize hg : p.stage data = g at hc
    cases hc with
    | progress =>
      obtain ⟨job, hk, rfl⟩ := (locked hr).entry hw.task
      refine ⟨?_, ?_⟩
      · rcases hI.attempts i k _ p b hw.task with hs | ⟨e, hs⟩ | hnot
        · cases hg.symm.trans hs
        · cases hg.symm.trans hs
        · exact hnot.2 row hrow hid
      · rw [((coherent hr).entries hk hrow hid).2.2]
        exact (attempt_values haw (hI.fits i k _ p b hw.task)).written _ n he

/-- The progress an update of a status sets. -/
theorem progress_of_status {i : Nat} {t : Task} {ch : Choice} {j : Uuid} {st : JobStatus}
    {ex : JobExtra} (hw : Wrote s a i t ch (.updateStatus j st ex)) : ex.progress = some 0 ∨ ex.progress = some 100 ∨ ex.progress = none := by
  have hwr := hw.writes
  cases hwr with
  | listenerUpdate _ m => exact Or.inr (Or.inr rfl)
  | attempt k data p b _ hc =>
    generalize hg : p.stage data = g at hc
    cases hc with
    | start => exact Or.inl rfl
    | complete o => exact Or.inr (Or.inl (completion_extra hw hg).1)

/-! ## The rows of jobs -/

/-- A pending row has done nothing, and the progress of a row is one of its processor's. -/
structure RowsBegin (s : System) : Prop where
  untouched : ∀ job ∈ s.world.db.jobs, job.status = .pending → job.Untouched
  progress : ∀ job ∈ s.world.db.jobs, job.progress ∈ progressValues job.type

theorem rowsBegin_step (hr : (platform cfg).Reach ok s) (h : Stepped cfg s a s') (hI : RowsBegin s) : RowsBegin s' where
  untouched job hjob hp := by
    rcases jobs_step h hjob with hold | ⟨i, t, ch, e, hw, ⟨r, hrow, hf⟩ | ⟨data, rfl, rfl, -⟩⟩
    · exact hI.untouched job hold hp
    · cases hf with
      | same => exact hI.untouched _ hrow hp
      | cleared =>
        obtain ⟨h1, h2, h3, h4, h5⟩ := hI.untouched r hrow hp
        exact ⟨h1, h2, rfl, h4, h5⟩
      | progress => exact absurd hp (progress_written hr hw hrow).1
      | status => exact absurd hp (not_pending_of_status hr hw)
      | cancelled => cases hp
    · obtain ⟨u, f, ty, o, -, rfl⟩ := job_creator hw
      exact ⟨rfl, rfl, rfl, rfl, rfl⟩
  progress job hjob := by
    rcases jobs_step h hjob with hold | ⟨i, t, ch, e, hw, ⟨r, hrow, hf⟩ | ⟨data, rfl, rfl, -⟩⟩
    · exact hI.progress job hold
    · cases hf with
      | same => exact hI.progress _ hrow
      | cleared | cancelled => exact hI.progress r hrow
      | progress => exact (progress_written hr hw hrow).2
      | status _ st ex =>
        obtain ⟨h0, h100⟩ := mem_progressValues_ends r.type
        have hold := hI.progress r hrow
        show ex.progress.getD r.progress ∈ progressValues r.type
        rcases progress_of_status hw with he | he | he <;> rw [he]
        · exact h0
        · exact h100
        · exact hold
    · obtain ⟨u, f, ty, o, -, rfl⟩ := job_creator hw
      exact (mem_progressValues_ends ty).1

theorem rowsBegin (h : (platform cfg).Reach ok s) : RowsBegin s := by
  refine h.invariant ?_ (fun s a s' hr hI _ hs => rowsBegin_step hr (step_cases hs) hI)
  rintro s rfl
  exact ⟨fun _ hj => (nomatch hj), fun _ hj => (nomatch hj)⟩

/-- A write makes a later row: what marks a row also moves it on from `pending`. -/
theorem JobWrite.later (hr : (platform cfg).Reach ok s) {i : Nat} {t : Task} {ch : Choice} {e : Effect} {r r' : JobRow}
    (hw : Wrote s a i t ch e) (hrow : r ∈ s.world.db.jobs) (h : JobWrite s.world.now e r r') : r.Later r' := by
  cases h with
  | same => exact .refl r
  | cleared =>
    refine ⟨rfl, rfl, rfl, rfl, fun hp => ?_⟩
    obtain ⟨-, -, h3, -⟩ := (rowsBegin hr).untouched r hrow hp
    rw [← h3]
  | progress => exact ⟨rfl, rfl, rfl, rfl, fun hp => absurd hp (progress_written hr hw hrow).1⟩
  | status => exact ⟨rfl, rfl, rfl, rfl, fun hp => absurd hp (not_pending_of_status hr hw)⟩
  | cancelled => exact ⟨rfl, rfl, rfl, rfl, fun hp => (nomatch hp)⟩

/-- A row with an id that was issued is a later version of one that was there. -/
theorem job_later (hr : (platform cfg).Reach ok s) (h : Stepped cfg s a s') {job' : JobRow} (hjob : job' ∈ s'.world.db.jobs)
    (hid : job'.id ∈ s.world.issued) : ∃ job ∈ s.world.db.jobs, job.id = job'.id ∧ job.Later job' := by
  rcases jobs_step h hjob with hold | ⟨i, t, ch, e, hw, ⟨r, hrow, hf⟩ | ⟨data, rfl, rfl, hn, -⟩⟩
  · exact ⟨job', hold, rfl, .refl job'⟩
  · exact ⟨r, hrow, hf.core.1.symm, hf.later hr hw hrow⟩
  · exact absurd hid hn

/-! ## The result -/

theorem row_history (cfg : Config) : RowHistory cfg where
  files s s' hr hs file hfile := by
    refine (hs.preserves (fun s => file.id ∈ s.world.issued ∧ ∀ file' ∈ s.world.db.files, file'.id = file.id → file.Later file') hr
      ⟨(issued hr).files file hfile, fun file' hfile' hid => ?_⟩ ?_).2
    · exact s.world.db.files.eq_of_key_eq hfile' hfile hid ▸ .refl file'
    · intro s a s' hr hI _ hst
      have h := step_cases hst
      refine ⟨issued_step h hI.1, fun file' hfile' hid => ?_⟩
      obtain ⟨file₁, hfile₁, hid₁, hl⟩ := file_later h hfile' (hid ▸ hI.1)
      exact (hI.2 file₁ hfile₁ (hid₁.trans hid)).trans hl
  jobs s s' hr hs job hjob := by
    refine (hs.preserves (fun s => job.id ∈ s.world.issued ∧ ∀ job' ∈ s.world.db.jobs, job'.id = job.id → job.Later job') hr
      ⟨(issued hr).jobs job hjob, fun job' hjob' hid => ?_⟩ ?_).2
    · exact s.world.db.jobs.eq_of_key_eq hjob' hjob hid ▸ .refl job'
    · intro s a s' hr hI _ hst
      have h := step_cases hst
      refine ⟨issued_step h hI.1, fun job' hjob' hid => ?_⟩
      obtain ⟨job₁, hjob₁, hid₁, hl⟩ := job_later hr h hjob' (hid ▸ hI.1)
      exact (hI.2 job₁ hjob₁ (hid₁.trans hid)).trans hl
  times s hr := ⟨(rowsDated hr).files, (rowsDated hr).jobs⟩
  gone s s' id hr hs hid := by
    refine ⟨fun hno => ?_, fun hno => ?_⟩
    · refine (hs.preserves (fun s => id ∈ s.world.issued ∧ ∀ file ∈ s.world.db.files, file.id ≠ id) hr ⟨hid, hno⟩ ?_).2
      intro s a s' hr hI _ hst
      refine ⟨issued_step (step_cases hst) hI.1, fun file' hfile' he => ?_⟩
      obtain ⟨file, hfile, hid, -⟩ := file_later (step_cases hst) hfile' (he ▸ hI.1)
      exact hI.2 file hfile (hid.trans he)
    · refine (hs.preserves (fun s => id ∈ s.world.issued ∧ ∀ job ∈ s.world.db.jobs, job.id ≠ id) hr ⟨hid, hno⟩ ?_).2
      intro s a s' hr hI _ hst
      refine ⟨issued_step (step_cases hst) hI.1, fun job' hjob' he => ?_⟩
      obtain ⟨job, hjob, hid, -⟩ := job_later hr (step_cases hst) hjob' (he ▸ hI.1)
      exact hI.2 job hjob (hid.trans he)
  untouched s hr := (rowsBegin hr).untouched
  progress s hr := (rowsBegin hr).progress

end FileProcessing
