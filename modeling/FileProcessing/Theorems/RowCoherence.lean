import FileProcessing.Lemmas.References
import FileProcessing.Lemmas.Reports

/-!
# The fields of a row of `jobs`

The type of a job says which fields are set in which status: the error once it has failed, the output once it has completed, neither
before. The updates merge: a field that an update does not name keeps the value it had, so a retry starts from what the failed attempt
left, and the default processor completes its row without an output file. The fields agree with the status in the runs where an
attempt starts and completes no failed row, every completion names its output file, and no report reaches a completed row.
-/

namespace FileProcessing

variable {cfg : Config} {ok : System → Action → Prop} {s s' : System} {a : Action} {past : List (System × Action)}

/-- The job was completed with an output file that has no row any more. -/
def OutputRemoved (s : System) (past : List (System × Action)) (jobId : Uuid) : Prop :=
  ∃ step ∈ past, ∃ row ∈ step.1.world.db.jobs, row.id = jobId ∧ row.status = .completed ∧
    ∃ o, row.outputFileId = some o ∧ ∀ file ∈ s.world.db.files, file.id ≠ o

/-- The fields of the row agree with its status; `removed` says that its output was removed. -/
structure CoherentRow (removed : Prop) (row : JobRow) : Prop where
  completed : row.status = .completed → row.progress = 100 ∧ row.errorMessage = none ∧ (row.outputFileId ≠ none ∨ removed)
  failed : row.status = .failed → row.errorMessage ≠ none
  opened : row.status = .pending ∨ row.status = .active →
    row.errorMessage = none ∧ row.outputPath = none ∧ row.outputFileId = none
  progress : row.progress ≤ 100

/-- In every reachable state every row of `jobs` is coherent. -/
def RowsCoherent (cfg : Config) (ok : System → Action → Prop) : Prop :=
  ∀ s past row, (platform cfg).withPast.Reach (Lts.onSteps ok) (s, past) → row ∈ s.world.db.jobs →
    CoherentRow (OutputRemoved s past row.id) row

/-- The conditions on a step: an attempt marks a row active that has not failed and names no output as a completed one; an attempt
completes a row that has not failed, and names its output; and no report but the last reaches a completed row. -/
structure CoherenceKept (cfg : Config) (s : System) (a : Action) : Prop where
  started : ∀ i pick ch k data p b, a = .exec i pick ch → s.tasks[i]? = some (.attempt k data p b) → p.stage data = .starting →
    ∀ row ∈ s.world.db.jobs, row.id = data.jobId → row.status ≠ .failed ∧ (row.status = .completed → row.outputFileId = none)
  completed : ∀ i pick ch k data p b o, a = .exec i pick ch → s.tasks[i]? = some (.attempt k data p b) →
    p.stage data = .completing o → (∀ x, o = some x → ∃ file ∈ s.world.db.files, file.id = x.id) →
    ∀ row ∈ s.world.db.jobs, row.id = data.jobId → row.status ≠ .failed ∧ o ≠ none
  reported : ∀ i pick ch t aw n, a = .exec i pick ch → s.tasks[i]? = some t → t.next cfg pick = some aw →
    ∀ row ∈ s.world.db.jobs, aw.call.effect = .updateProgress row.id n → row.status = .completed → n = 100

/-! ## The output of a completed row -/

/-- A hard delete that clears the output of a row deletes the file the row named. -/
theorem output_gone {db : Db} {u f o : Uuid} {row : JobRow} (hrow : row ∈ db.jobs) (ho : row.outputFileId = some o)
    (hrow' : { row with outputFileId := none } ∈ (FileRepository.hardDelete db u f).jobs) :
    ∀ file ∈ (FileRepository.hardDelete db u f).files, file.id ≠ o := by
  simp only [FileRepository.hardDelete, Table.mem_update, Table.mem_delete, if_true] at hrow'
  obtain ⟨old, ⟨hold, -⟩, he⟩ := hrow'
  have hid : old.id = row.id := by
    have := congrArg JobRow.id he
    rwa [FileRepository.clearOutput_id] at this
  obtain rfl := db.jobs.eq_of_key_eq hold hrow hid
  have hnone := congrArg JobRow.outputFileId he
  unfold FileRepository.clearOutput at hnone
  split at hnone
  · rename_i hany
    simp only [List.any_eq_true, Bool.and_eq_true, decide_eq_true_eq] at hany
    obtain ⟨gone, hgone, hown, hout⟩ := hany
    intro file hfile hfo
    obtain ⟨hmem, hkept⟩ := Table.mem_delete.1 hfile
    rw [ho, Option.some.injEq] at hout
    obtain rfl := db.files.eq_of_key_eq hmem hgone (hfo.trans hout)
    rw [hown] at hkept
    cases hkept
  · rw [ho] at hnone
    cases hnone

/-- An output that was removed stays removed: no id is issued twice. -/
theorem outputRemoved_step (hr : (platform cfg).withPast.Reach (Lts.onSteps ok) (s, past)) (h : Stepped cfg s a s') {jobId : Uuid}
    (hout : OutputRemoved s past jobId) : OutputRemoved s' ((s, a) :: past) jobId := by
  obtain ⟨step, hstep, row, hrow, hid, hdone, o, ho, hgone⟩ := hout
  refine ⟨step, List.mem_cons_of_mem _ hstep, row, hrow, hid, hdone, o, ho, ?_⟩
  obtain ⟨hreach, -, hsteps⟩ := hr.past_step step hstep
  have hissued : o ∈ s.world.issued := by
    obtain ⟨file, hfile, rfl⟩ := (referencesStand hreach row hrow).output o ho
    exact hsteps.induct (fun s => file.id ∈ s.world.issued) ((issued hreach).files file hfile)
      (fun _ _ _ hi _ hst => issued_step (step_cases hst) hi)
  intro file hfile he
  exact files_same h hissued (Q := fun _ => False) (fun _ _ _ hx => hx) (fun file hfile he => hgone file hfile he) file hfile he

/-- A coherent row stays so when its output is removed. -/
theorem CoherentRow.mono {removed removed' : Prop} {row : JobRow} (h : CoherentRow removed row) (hle : removed → removed') :
    CoherentRow removed' row where
  completed hc := ⟨(h.completed hc).1, (h.completed hc).2.1, (h.completed hc).2.2.imp_right hle⟩
  failed := h.failed
  opened := h.opened
  progress := h.progress

/-! ## A step keeps the rows coherent -/

/-- Every row is coherent, and none has an output path. -/
def RowsCohere (s : System) (past : List (System × Action)) : Prop :=
  ∀ row ∈ s.world.db.jobs, CoherentRow (OutputRemoved s past row.id) row ∧ row.outputPath = none

/-- An update of a status keeps a row coherent: an attempt starts it or completes it, or a listener fails it. -/
theorem coherent_status (hok : CoherenceKept cfg s a)
    {i : Nat} {t : Task} {ch : Choice} {row : JobRow} {st : JobStatus} {ex : JobExtra} {removed : Prop}
    (hw : Wrote s a i t ch (.updateStatus row.id st ex)) (hrow : row ∈ s.world.db.jobs)
    (hex : ∀ o, ex.outputFileId = some o → ∃ file ∈ s.world.db.files, file.id = o)
    (hI : CoherentRow removed row) (hpath : row.outputPath = none) :
    CoherentRow removed (JobRepository.setStatus s.world.now st ex row) ∧
      (JobRepository.setStatus s.world.now st ex row).outputPath = none := by
  obtain ⟨pick, ha⟩ := hw.action
  have hwr := hw.writes
  generalize hid : row.id = j at hwr
  cases hwr with
  | listenerUpdate _ m =>
    refine ⟨⟨fun hc => ?_, fun _ hn => ?_, fun ho => ?_, hI.progress⟩, hpath⟩
    · cases hc
    · cases hn
    · rcases ho with ho | ho <;> cases ho
  | attempt k data p b _ hc =>
    generalize hg : p.stage data = g at hc
    cases hc with
    | start =>
      obtain ⟨hnf, hnc⟩ := hok.started i pick ch k data p b ha hw.task hg row hrow hid
      have hclear : row.errorMessage = none ∧ row.outputFileId = none := by
        cases hst : row.status with
        | pending => exact ⟨(hI.opened (Or.inl hst)).1, (hI.opened (Or.inl hst)).2.2⟩
        | active => exact ⟨(hI.opened (Or.inr hst)).1, (hI.opened (Or.inr hst)).2.2⟩
        | completed => exact ⟨(hI.completed hst).2.1, hnc hst⟩
        | failed => exact absurd hst hnf
      refine ⟨⟨fun hc => ?_, fun hf => ?_, fun _ => ⟨hclear.1, hpath, hclear.2⟩, Nat.zero_le _⟩, hpath⟩
      · cases hc
      · cases hf
    | complete o _ hout =>
      have hwc : Wrote s a i (.attempt k data p b) ch (.updateStatus data.jobId .completed ex) := hid ▸ hw
      obtain ⟨hprog, herr, -, hnopath⟩ := completion_extra hwc hg
      have hthere : ∀ x, o = some x → ∃ file ∈ s.world.db.files, file.id = x.id := by
        rintro x rfl
        exact hex x.id hout
      obtain ⟨hnf, hsome⟩ := hok.completed i pick ch k data p b o ha hw.task hg hthere row hrow hid
      obtain ⟨x, rfl⟩ := Option.ne_none_iff_exists'.1 hsome
      have hnoerr : row.errorMessage = none := by
        cases hst : row.status with
        | pending => exact (hI.opened (Or.inl hst)).1
        | active => exact (hI.opened (Or.inr hst)).1
        | completed => exact (hI.completed hst).2.1
        | failed => exact absurd hst hnf
      refine ⟨⟨fun _ => ⟨?_, ?_, Or.inl ?_⟩, fun hf => ?_, fun ho => ?_, ?_⟩, ?_⟩
      · simp [JobRepository.setStatus, hprog]
      · simp [JobRepository.setStatus, herr, hnoerr]
      · simp [JobRepository.setStatus, hout]
      · cases hf
      · rcases ho with ho | ho <;> cases ho
      · simp [JobRepository.setStatus, hprog]
      · simp [JobRepository.setStatus, hnopath hsome, hpath]

/-- A step keeps every row coherent. -/
theorem rowsCohere_step (hr : (platform cfg).withPast.Reach (Lts.onSteps ok) (s, past)) (hok : CoherenceKept cfg s a)
    (h : Stepped cfg s a s') (hI : RowsCohere s past) : RowsCohere s' ((s, a) :: past) := by
  intro row' hrow'
  have later {jobId : Uuid} : OutputRemoved s past jobId → OutputRemoved s' ((s, a) :: past) jobId := outputRemoved_step hr h
  by_cases hold : row' ∈ s.world.db.jobs
  · exact ⟨(hI row' hold).1.mono later, (hI row' hold).2⟩
  rcases tables_step h with ⟨-, hjobs⟩ | ⟨i, pick, ch, t, aw, ha, ht, hn, hworld⟩
  · exact absurd (hjobs ▸ hrow') hold
  have hw : Wrote s a i t ch aw.call.effect := ⟨⟨pick, ha⟩, ht, cfg, pick, aw, hn, rfl⟩
  rw [hworld] at hrow'
  rcases jobs_apply hrow' with ⟨row, hrow, hf⟩ | ⟨data, he, rfl, -⟩
  · obtain ⟨hco, hpath⟩ := hI row hrow
    replace hco := hco.mono later
    generalize he : aw.call.effect = e at hw hf hrow' hworld
    cases hf with
    | same => exact absurd hrow hold
    | cleared u f =>
      refine ⟨⟨fun hc => ⟨(hco.completed hc).1, (hco.completed hc).2.1, Or.inr ?_⟩, hco.failed,
        fun ho => ⟨(hco.opened ho).1, hpath, rfl⟩, hco.progress⟩, hpath⟩
      cases hout : row.outputFileId with
      | none =>
        have hsame : row = { row with outputFileId := none } := by rw [← hout]
        exact absurd (hsame ▸ hrow) hold
      | some o =>
        refine ⟨(s, a), List.mem_cons_self, row, hrow, rfl, hc, o, hout, ?_⟩
        rw [hworld]
        exact output_gone hrow hout hrow'
    | progress _ n =>
      have hle : n ≤ 100 := progress_le hr.of_past hw
      exact ⟨⟨fun hc => ⟨hok.reported i pick ch t aw n ha ht hn row hrow he hc, (hco.completed hc).2⟩, hco.failed, hco.opened, hle⟩,
        hpath⟩
    | status _ st ex =>
      exact coherent_status hok hw hrow (fun o ho => output_of_updateStatus hrow rfl hrow' hold ho) hco hpath
    | cancelled =>
      refine ⟨⟨fun hc => ?_, fun _ hn => ?_, fun ho => ?_, hco.progress⟩, hpath⟩
      · cases hc
      · cases hn
      · rcases ho with ho | ho <;> cases ho
  · rw [he] at hw
    obtain ⟨u, f, ty, o, -, rfl⟩ := job_creator hw
    refine ⟨⟨fun hc => ?_, fun hf => ?_, fun _ => ⟨rfl, rfl, rfl⟩, Nat.zero_le _⟩, rfl⟩
    · cases hc
    · cases hf

/-! ## The result -/

/-- Every row is coherent in every run whose steps meet the conditions. -/
theorem rows_coherent (cfg : Config) : RowsCoherent cfg (CoherenceKept cfg) := by
  intro s past row hr hrow
  have hall : RowsCohere s past := by
    refine hr.invariant_past ?_ (fun s past a s' hr hI hok hs => rowsCohere_step hr hok (step_cases hs) hI)
    rintro s rfl row hrow
    exact absurd hrow (Table.not_mem_empty row)
  exact (hall row hrow).1

/-- A compression whose first attempt fails at its second call; the listener fails the row, and the retry marks it active. -/
def retriedAttempt : List Action :=
  Trace.upload ++ Trace.job ++ [.deliver 0, Trace.call 3 0, Trace.drop 3, .settle 3, Trace.call 4 0, .deliver 0, Trace.call 5 0]

/-- Not every row is coherent in every run: the retry of a failed attempt is active with the error of that attempt. -/
theorem row_incoherent : ¬ RowsCoherent Config.default Lts.Free := by
  intro h
  have hrun : ((platform Config.default).run System.empty retriedAttempt).any (fun s =>
      s.world.db.jobs.rows.any (fun row => row.status = .active && row.errorMessage = some "ECONNRESET")) = true := by
    decide +kernel
  obtain ⟨s, hs, hp⟩ := Trace.reach hrun
  obtain ⟨row, hrow, hst⟩ := List.any_eq_true.1 hp
  simp only [Bool.and_eq_true, decide_eq_true_eq] at hst
  obtain ⟨past, hpast⟩ := hs.with_past
  have hnone := ((h s past row hpast hrow).opened (Or.inr hst.1)).1
  rw [hst.2] at hnone
  cases hnone

end FileProcessing
