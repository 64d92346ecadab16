import FileProcessing.Lemmas.Attempts

/-!
# A cancelled job

`JobService.cancel` reads the row, then updates it if it is still pending, and returns whatever the update found; it leaves the
BullMQ entry where it is. So cancellation is final in the runs where the row is still pending at the update, with no attempt of
the job under way, and where BullMQ does not deliver a cancelled job afterwards, and not in others: an attempt that is delivered
after the cancellation marks the job active.
-/

namespace FileProcessing

variable {cfg : Config} {ok : System → Action → Prop} {s s' : System} {a : Action}

/-- A call of `cancel` on the job has returned. -/
def Cancelled (s : System) (jobId : Uuid) : Prop := ∃ (i : Nat) (u : Uuid), s.tasks[i]? = some (.cancelJob u jobId .returned)

/-- The row says that the job was cancelled. -/
def SaysCancelled (row : JobRow) : Prop := row.status = .failed ∧ row.errorMessage = some "Cancelled by user"

/-- Cancellation is final: once `cancel` has returned, the row of the job says so in every later state, and every row of an
output of the job is one that was there before. -/
def CancelIsFinal (cfg : Config) (ok : System → Action → Prop) : Prop :=
  ∀ s s' jobId, (platform cfg).Reach ok s → Cancelled s jobId → (platform cfg).Steps ok s s' →
    (∀ row ∈ s'.world.db.jobs, row.id = jobId → SaysCancelled row) ∧
    ∀ file ∈ s'.world.db.files, IsOutputKey file.storagePath jobId → ∃ old ∈ s.world.db.files, old.id = file.id

/-- The cancellation comes in time: when `cancel` updates the row, the row is pending or was cancelled before, and no attempt and
no listener of the job is under way; and a cancelled job is not delivered. -/
def CancelInTime (s : System) : Action → Prop
  | .exec i _ _ => ∀ u jobId, s.tasks[i]? = some (.cancelJob u jobId .cancel) →
      Quiet s jobId ∧ ∀ row ∈ s.world.db.jobs, row.id = jobId → row.status = .pending ∨ SaysCancelled row
  | .deliver k => ∀ job, s.world.queue[k]? = some job → ¬ Cancelled s job.payload.jobId
  | _ => True

/-! ## `JobService.cancel` -/

/-- How `cancel` reaches its update, and how it returns. -/
theorem cancel_moves {u j : Uuid} {p' : JobService.Cancel} {i : Nat} {t : Task} (hp : p' = .cancel ∨ p' = .returned)
    (hm : TaskMoves cfg s a i t (.cancelJob u j p')) :
    (t = .cancelJob u j p') ∨
      (p' = .cancel ∧ ∃ row ∈ s.world.db.jobs, row.id = j ∧ row.userId = u) ∨
      (p' = .returned ∧ t = .cancelJob u j .cancel ∧ ∃ pick ch, a = .exec i pick ch) := by
  cases hm with
  | waits => exact Or.inl rfl
  | @cancelJob _ _ p _ aw r pick hn hr he =>
    cases p with
    | findById =>
      cases hn
      cases r with
      | error e => rcases hp with rfl | rfl <;> cases he
      | ok v =>
        obtain ⟨ch, rfl, hv⟩ := hr.of_ok
        cases v with
        | none => rcases hp with rfl | rfl <;> cases he
        | some job =>
          obtain ⟨hmem, hid, hu⟩ := findJob_some (Except.ok.inj hv)
          dsimp only at he
          split at he
          · rcases hp with rfl | rfl <;> cases he
          · split at he
            · rcases hp with rfl | rfl <;> cases he
            · exact Or.inr (Or.inl ⟨he.symm, job, hmem, hid, hu⟩)
    | cancel =>
      cases hn
      cases r with
      | error e => rcases hp with rfl | rfl <;> cases he
      | ok v =>
        obtain ⟨ch, ha, -⟩ := hr.of_ok
        exact Or.inr (Or.inr ⟨he.symm, rfl, pick, ch, ha⟩)
    | returned => cases hn
    | threw e => cases hn

/-- Past its read, `cancel` is on a job of its user. -/
def CancelsOwn (s : System) : Prop :=
  ∀ (i : Nat) u j p, s.tasks[i]? = some (.cancelJob u j p) → p = .cancel ∨ p = .returned →
    j ∈ s.world.issued ∧ ∀ row ∈ s.world.db.jobs, row.id = j → row.userId = u

/-- The rows of an issued job keep its owner. -/
theorem owner_step (h : Stepped cfg s a s') {u j : Uuid} (hj : j ∈ s.world.issued)
    (hu : ∀ row ∈ s.world.db.jobs, row.id = j → row.userId = u) : ∀ row ∈ s'.world.db.jobs, row.id = j → row.userId = u := by
  intro row' hr' hid
  rcases jobs_step h hr' with hr | ⟨i, t, ch, e, hw, ⟨r, hr, hf⟩ | ⟨data, -, rfl, hn, -⟩⟩
  · exact hu row' hr hid
  · rw [hf.core.2.1]
    exact hu r hr (hf.core.1 ▸ hid)
  · have hid' : ch.id = j := hid
    exact absurd (hid' ▸ hj) hn

/-- A step keeps the jobs of the cancellations those of their users. -/
theorem cancelsOwn_step (hreach : (platform cfg).Reach ok s) (h : Stepped cfg s a s') (hI : CancelsOwn s) : CancelsOwn s' := by
  intro i u j p' hi hp
  have keep (h' : j ∈ s.world.issued ∧ ∀ row ∈ s.world.db.jobs, row.id = j → row.userId = u) :
      j ∈ s'.world.issued ∧ ∀ row ∈ s'.world.db.jobs, row.id = j → row.userId = u :=
    ⟨issued_step h h'.1, owner_step h h'.1 h'.2⟩
  rcases task_back h hi with ⟨t, ht, hm⟩ | ⟨-, hsp⟩
  · rcases cancel_moves hp hm with rfl | ⟨-, row, hrow, hid, hu⟩ | ⟨-, rfl, -⟩
    · exact keep (hI _ _ _ _ ht hp)
    · refine keep ⟨hid ▸ (issued hreach).jobs row hrow, fun row' hr' hid' => ?_⟩
      rw [s.world.db.jobs.eq_of_key_eq hr' hrow (hid'.trans hid.symm)]
      exact hu
    · exact keep (hI _ _ _ _ ht (Or.inl rfl))
  · cases hsp
    rcases hp with hp | hp <;> cases hp

/-- In every reachable state. -/
theorem cancelsOwn (h : (platform cfg).Reach ok s) : CancelsOwn s := by
  refine h.invariant ?_ (fun s a s' hreach hI _ hs => cancelsOwn_step hreach (step_cases hs) hI)
  rintro s rfl i u j p hi
  cases hi

/-! ## The invariant -/

/-- Every row of a cancelled job says so, and the job is quiet. -/
def CancelledQuiet (s : System) : Prop :=
  ∀ jobId, Cancelled s jobId → Quiet s jobId ∧ ∀ row ∈ s.world.db.jobs, row.id = jobId → SaysCancelled row

/-- While a job is quiet, a row of it has the status and the message it had, unless it has just been cancelled. -/
theorem quiet_row (hr : (platform cfg).Reach ok s) (h : Stepped cfg s a s') {jobId : Uuid} (hq : Quiet s jobId)
    (hj : jobId ∈ s.world.issued) {row' : JobRow} (hrow' : row' ∈ s'.world.db.jobs) (hid : row'.id = jobId) :
    SaysCancelled row' ∨
      ∃ row ∈ s.world.db.jobs, row.id = jobId ∧ row'.status = row.status ∧ row'.errorMessage = row.errorMessage := by
  rcases jobs_step h hrow' with hrow | ⟨i, t, ch, e, hw, ⟨row, hrow, hf⟩ | ⟨data, -, rfl, hn, -⟩⟩
  · exact Or.inr ⟨row', hrow, hid, rfl, rfl⟩
  · have hid₀ : row.id = jobId := hf.core.1 ▸ hid
    cases hf with
    | same | cleared | progress => exact Or.inr ⟨_, hrow, hid₀, rfl, rfl⟩
    | status _ st ex => exact absurd (congrArg (Effect.updateStatus · st ex) hid₀) ((quiet_writes hr hq hw).1 st ex)
    | cancelled hp => exact Or.inl ⟨rfl, rfl⟩
  · have hid' : ch.id = jobId := hid
    exact absurd (hid' ▸ hj) hn

/-- A step keeps cancelled jobs quiet. -/
theorem cancelledQuiet_step (hreach : (platform cfg).Reach CancelInTime s) (hok : CancelInTime s a)
    (h : Stepped cfg s a s') (hI : CancelledQuiet s) :
    CancelledQuiet s' := by
  rintro jobId ⟨i, u, hi⟩
  have hown := cancelsOwn hreach
  rcases task_back h hi with ⟨t, ht, hm⟩ | ⟨-, hsp⟩
  · rcases cancel_moves (Or.inr rfl) hm with rfl | ⟨hp, -⟩ | ⟨-, rfl, pick, ch, rfl⟩
    · obtain ⟨hq, hrows⟩ := hI jobId ⟨i, u, ht⟩
      have hj := (hown _ _ _ _ ht (Or.inr rfl)).1
      refine ⟨quiet_step h hq (fun ha hk hid => ?_), fun row' hr' hid => ?_⟩
      · subst ha
        exact hok _ hk (hid ▸ ⟨i, u, ht⟩)
      · rcases quiet_row hreach h hq hj hr' hid with hc | ⟨row, hrow, hid₀, hstat, hmsg⟩
        · exact hc
        · rw [SaysCancelled, hstat, hmsg]
          exact hrows row hrow hid₀
    · cases hp
    · obtain ⟨hq, hrows⟩ := hok u jobId ht
      have hj := (hown _ _ _ _ ht (Or.inl rfl)).1
      refine ⟨quiet_step h hq (fun ha => nomatch ha), fun row' hr' hid => ?_⟩
      have hw : s'.world = ((Call.cancelJob u jobId).exec ch s.world).2 := world_of_exec h ht rfl
      rw [exec_world] at hw
      have hu := owner_step h hj (hown _ _ _ _ ht (Or.inl rfl)).2 row' hr' hid
      have hne : row'.status ≠ .pending := cancel_rows (hw ▸ hr') hid hu
      rcases quiet_row hreach h hq hj hr' hid with hc | ⟨row, hrow, hid₀, hstat, hmsg⟩
      · exact hc
      · rw [SaysCancelled, hstat, hmsg]
        exact (hrows row hrow hid₀).resolve_left (hstat ▸ hne)
  · cases hsp

/-- The invariant, in a run where every cancellation comes in time. -/
theorem cancelledQuiet (h : (platform cfg).Reach CancelInTime s) : CancelledQuiet s := by
  refine h.invariant ?_ (fun s a s' hreach hI hok hs => cancelledQuiet_step hreach hok (step_cases hs) hI)
  rintro s rfl jobId ⟨i, u, hi⟩
  cases hi

/-- A cancellation that has returned is not taken back. -/
theorem cancelled_step (h : Stepped cfg s a s') {jobId : Uuid} (hc : Cancelled s jobId) : Cancelled s' jobId := by
  obtain ⟨i, u, hi⟩ := hc
  obtain ⟨t', ht', hm⟩ := task_forward h hi
  cases hm with
  | waits => exact ⟨i, u, ht'⟩
  | cancelJob hn => cases hn

/-- While a job is quiet, every row of an output of it was there before. -/
theorem quiet_outputs (hr : (platform cfg).Reach ok s) (h : Stepped cfg s a s') {jobId : Uuid} (hq : Quiet s jobId)
    {file' : FileRow} (hf : file' ∈ s'.world.db.files) (hkey : IsOutputKey file'.storagePath jobId) :
    ∃ file ∈ s.world.db.files, file.id = file'.id ∧ file.storagePath = file'.storagePath := by
  rcases files_step h hf with hf | ⟨i, t, ch, e, hw, ⟨file, hf, hwr⟩ | ⟨data, rfl, rfl, -⟩⟩
  · exact ⟨file', hf, rfl, rfl⟩
  · exact ⟨file, hf, hwr.core.1.symm, hwr.core.2.2.1.symm⟩
  · exact absurd hkey ((quiet_writes hr hq hw).2 data rfl)

/-! ## The result -/

/-- Cancellation is final in every run where the cancellations come in time. -/
theorem cancel_final_in_time (cfg : Config) : CancelIsFinal cfg CancelInTime := by
  intro s s' jobId hr hc hs
  have hall := hs.preserves (fun s' => Cancelled s' jobId ∧
      ∀ file ∈ s'.world.db.files, IsOutputKey file.storagePath jobId → ∃ old ∈ s.world.db.files, old.id = file.id)
    hr ⟨hc, fun file hf _ => ⟨file, hf, rfl⟩⟩ (by
    rintro s₁ a s₂ hr₁ ⟨hc₁, hold⟩ _ hst
    have hst := step_cases hst
    refine ⟨cancelled_step hst hc₁, fun file' hf' hkey => ?_⟩
    obtain ⟨file, hf, hid, hpath⟩ := quiet_outputs hr₁ hst (cancelledQuiet hr₁ jobId hc₁).1 hf' hkey
    rw [← hid]
    exact hold file hf (hpath ▸ hkey))
  exact ⟨(cancelledQuiet (hr.steps hs) jobId hall.1).2, hall.2⟩

/-- The guest cancels the job that was created and not yet delivered. -/
def cancelTrace : List Action := Trace.upload ++ Trace.job ++
  [.request (.cancelJob (Trace.uuid 1) (Trace.uuid 20)) (Trace.uuid 5), Trace.call 3 0, Trace.call 3 0]

/-- Cancellation is not final in every run: BullMQ delivers the job, and the attempt marks it active. -/
theorem cancel_not_final : ¬ CancelIsFinal Config.default Lts.Free := by
  intro h
  have hrun : ((platform Config.default).run System.empty cancelTrace).any (fun s =>
      s.tasks[3]? = some (.cancelJob (Trace.uuid 1) (Trace.uuid 20) .returned) &&
        ((platform Config.default).run s [.deliver 0, Trace.call 4 0]).any (fun s' =>
          s'.world.db.jobs.rows.any (fun row => row.id = Trace.uuid 20 && row.status = .active))) = true := by
    decide +kernel
  obtain ⟨s, hs, hp⟩ := Trace.reach hrun
  rw [Bool.and_eq_true, decide_eq_true_eq] at hp
  obtain ⟨s', hs', hp'⟩ := Lts.steps_of_any hp.2
  obtain ⟨row, hrow, hact⟩ := List.any_eq_true.1 hp'
  simp only [Bool.and_eq_true, decide_eq_true_eq] at hact
  have hfinal := (h s s' (Trace.uuid 20) hs ⟨3, Trace.uuid 1, hp.1⟩ hs').1 row hrow hact.1
  rw [SaysCancelled, hact.2] at hfinal
  cases hfinal.1

end FileProcessing
