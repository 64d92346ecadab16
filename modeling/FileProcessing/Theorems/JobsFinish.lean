import FileProcessing.Lemmas.Locks
import FileProcessing.Lemmas.Ranks
import FileProcessing.Lib.Liveness

/-!
# Every queued job is finished

What must happen. A run is fair when an awaited call settles, BullMQ delivers a waiting job and settles an attempt that has ended,
each unless it stops being possible. In a fair run every task comes to its end; and a job of the queue whose lock is taken away
only finitely often is completed or given up, with its row completed or failed, unless the `failed` listener cannot write it.
-/

open Filter

namespace FileProcessing

variable {cfg : Config} {ok : System → Action → Prop} {s s' : System} {a : Action} {jobId : Uuid}

/-- Task `i` awaits a call. -/
def System.Awaits (s : System) (cfg : Config) (i : Nat) : Prop :=
  ∃ t pick aw, s.tasks[i]? = some t ∧ t.next cfg pick = some aw

/-- The job at place `k` of the queue waits. -/
def System.Queued (s : System) (k : Nat) : Prop := ∃ job, s.world.queue[k]? = some job ∧ job.state = .waiting

/-- Task `i` is an attempt that has ended and that BullMQ has not settled. -/
def System.Unsettled (s : System) (i : Nat) : Prop :=
  ∃ k data p, s.tasks[i]? = some (.attempt k data p false) ∧ p.outcome.isSome = true

/-- The run is fair to the tasks and to BullMQ. -/
structure Fair (cfg : Config) (state : Nat → System) (act : Nat → Action) : Prop where
  calls : ∀ i, Lts.WeaklyFair (fun n => (state n).Awaits cfg i) (fun n => (act n).caller = some i)
  deliveries : ∀ k, Lts.WeaklyFair (fun n => (state n).Queued k) (fun n => act n = .deliver k)
  settlements : ∀ i, Lts.WeaklyFair (fun n => (state n).Unsettled i) (fun n => act n = .settle i)

/-- BullMQ has completed the job at place `k` or given it up, and its row, if it is still there, is completed or failed. -/
def Finished (s : System) (k : Nat) : Prop :=
  ∃ job, s.world.queue[k]? = some job ∧ (job.state = .completed ∨ job.state = .failed) ∧
    ∀ row ∈ s.world.db.jobs, row.id = job.payload.jobId → row.status = .completed ∨ row.status = .failed

/-- The step does not fail the update a `failed` listener of the job makes. -/
def ListenerKept (jobId : Uuid) (s : System) (a : Action) : Prop :=
  ∀ i pick e message, a = .reject i pick e → s.tasks[i]? ≠ some (.failedListener jobId message .updateStatus)

/-! ## The work that is left on a job -/

/-- The task has still to write the last status of the job. -/
inductive WorksOn (jobId : Uuid) : Task → Prop where
  | attempt (k : Nat) {data : JobPayload} {p : Attempt} (hid : data.jobId = jobId)
      (hg : ∀ o, p.stage data ≠ .announcing o ∧ p.stage data ≠ .returned o) : WorksOn jobId (.attempt k data p false)
  | listener (message : String) : WorksOn jobId (.failedListener jobId message .updateStatus)

/-- The job waits in the queue, or a task works on it. -/
def Works (s : System) (jobId : Uuid) : Prop :=
  (∃ (k : Nat) (job : BullJob), s.world.queue[k]? = some job ∧ job.state = .waiting ∧ job.payload.jobId = jobId) ∨
    ∃ (i : Nat) (t : Task), s.tasks[i]? = some t ∧ WorksOn jobId t

/-- The row has not come to its last status. -/
def JobRow.Open (row : JobRow) : Prop := row.status = .pending ∨ row.status = .active

theorem worksOn_of_stage {k : Nat} {data : JobPayload} {p : Attempt} (h : p.stage data = .starting ∨ p.stage data = .working ∨
    (∃ e, p.stage data = .threw e)) (hid : data.jobId = jobId) : WorksOn jobId (.attempt k data p false) := by
  refine .attempt k hid (fun o => ?_)
  rcases h with h | h | ⟨e, h⟩ <;> rw [h] <;> exact ⟨nofun, nofun⟩

/-- A waiting job waits on or is delivered. -/
theorem works_of_waiting (h : Stepped cfg s a s') {k : Nat} {job : BullJob} (hk : s.world.queue[k]? = some job)
    (hw : job.state = .waiting) : Works s' job.payload.jobId := by
  obtain ⟨job', hk', hm⟩ := entry_forward h hk
  cases hm with
  | stays => exact Or.inl ⟨k, job, hk', hw, rfl⟩
  | delivered ha =>
    subst ha
    exact Or.inr ⟨_, _, deliver_spawns h hk, worksOn_of_stage (Or.inl (stage_start _)) rfl⟩
  | stalled _ hs | finished _ _ _ hs | retries _ _ _ hs | gaveUp _ _ _ hs => rw [hw] at hs; cases hs

/-- An attempt that settles one of its calls works on, or has completed the rows of its job. -/
theorem works_of_attempt (h : Stepped cfg s a s') {i k pick : Nat} {data : JobPayload} {p : Attempt} {aw : Await (Attempt × List Report)}
    {r : Except Err aw.α} (ht : s.tasks[i]? = some (.attempt k data p false)) (hn : p.next data pick = some aw)
    (hr : Settles s i pick a aw.call r) (hg : ∀ o, p.stage data ≠ .announcing o ∧ p.stage data ≠ .returned o) :
    WorksOn data.jobId (.attempt k data (aw.resume r).1 false) ∨
      ∀ row ∈ s'.world.db.jobs, row.id = data.jobId → row.status = .completed := by
  obtain ⟨hcall, hstep⟩ := attempt_stage hn
  have hstep := hstep r
  generalize hg' : (aw.resume r).1.stage data = g' at hstep
  generalize p.stage data = g at hcall hstep hg
  by_cases hlast : ∃ o, g' = .announcing o
  · obtain ⟨o, rfl⟩ := hlast
    obtain ⟨rfl, v, rfl⟩ := hstep.to_announcing
    obtain ⟨ch, rfl, hx⟩ := hr.of_ok
    obtain ⟨aw', hn', hworld, -⟩ := attempt_acts h ht
    cases hn.symm.trans hn'
    refine Or.inr (fun row hrow hid => ?_)
    rw [hworld] at hrow
    generalize hf : aw.call.effect = f at hcall
    cases hcall
    exact updated_rows hf hx hrow hid
  · refine Or.inl (.attempt k rfl (fun o => ?_))
    rw [hg']
    refine ⟨fun heq => hlast ⟨o, heq⟩, fun heq => ?_⟩
    subst heq
    exact (hg o).1 hstep.to_returned

/-- An attempt that threw leaves its listener behind when it is settled. -/
theorem works_of_settle (h : Stepped cfg s (.settle i) s') {k : Nat} {data : JobPayload} {p : Attempt}
    (ht : s.tasks[i]? = some (.attempt k data p false)) {e : Err} (ho : p.outcome = some (.error e)) : Works s' data.jobId := by
  cases h with
  | settle ht' ho' =>
    cases ht.symm.trans ht'
    cases ho.symm.trans ho'
    refine Or.inr ⟨s.tasks.length, _, ?_, .listener e.message⟩
    simp [System.resume, Pool.replace, listenerOf]

/-- A step leaves work on the job, or the rows of the job have come to their last status. -/
theorem works_step (h : Stepped cfg s a s') (hok : ListenerKept jobId s a) (hw : Works s jobId) :
    Works s' jobId ∨ ∀ row ∈ s'.world.db.jobs, row.id = jobId → ¬ row.Open := by
  have hclosed : ∀ {st : JobStatus}, (st = .completed ∨ st = .failed) → (∀ row ∈ s'.world.db.jobs, row.id = jobId → row.status = st) →
      ∀ row ∈ s'.world.db.jobs, row.id = jobId → ¬ row.Open := by
    rintro st hst hrows row hrow hid (ho | ho) <;> rw [hrows row hrow hid] at ho <;> subst ho <;> rcases hst with hst | hst <;> cases hst
  rcases hw with ⟨k, job, hk, hw, rfl⟩ | ⟨i, t, ht, hw⟩
  · exact Or.inl (works_of_waiting h hk hw)
  obtain ⟨t', ht', hm⟩ := task_forward h ht
  cases hw with
  | attempt k hid hg =>
    subst hid
    cases hm with
    | waits => exact Or.inl (Or.inr ⟨i, _, ht', .attempt k rfl hg⟩)
    | attempt hn hr he =>
      subst he
      rcases works_of_attempt h ht hn hr hg with hw | hrows
      · exact Or.inl (Or.inr ⟨i, _, ht', hw⟩)
      · exact Or.inr (hclosed (Or.inl rfl) hrows)
    | settled ho ha =>
      subst ha
      rcases outcome_eq ho with ⟨o, hs, -⟩ | ⟨e, -, rfl⟩
      · exact absurd hs (hg o).2
      · exact Or.inl (works_of_settle h ht ho)
  | listener message =>
    cases hm with
    | waits => exact Or.inl (Or.inr ⟨i, _, ht', .listener message⟩)
    | @failedListener _ _ _ _ aw r pick hn hr he =>
      cases hn
      cases r with
      | error e =>
        rcases hr.of_error with ha | ⟨ch, -, hx⟩
        · exact absurd ht (hok i pick e message ha)
        · obtain ⟨v, hv⟩ := exec_updateStatus (c := .updateStatus jobId .failed { errorMessage := some message }) rfl ch
            (w := s.world) (fun _ => rfl)
          cases hv.symm.trans hx
      | ok v =>
        obtain ⟨ch, rfl, hx⟩ := hr.of_ok
        refine Or.inr (hclosed (Or.inr rfl) (fun row hrow hid => ?_))
        rw [world_of_exec h ht rfl] at hrow
        exact updated_rows rfl hx hrow hid

/-- Work is left on every queued job whose row has not come to its last status. -/
def OpenWorked (jobId : Uuid) (s : System) : Prop :=
  ∀ (k : Nat) job row, s.world.queue[k]? = some job → job.payload.jobId = jobId → row ∈ s.world.db.jobs → row.id = jobId → row.Open →
    Works s jobId

/-- A row that is open after a step was open before it, or an attempt has just marked it active, or it is new. -/
theorem open_back (hr : (platform cfg).Reach ok s) (h : Stepped cfg s a s') {row' : JobRow} (hrow : row' ∈ s'.world.db.jobs)
    (ho : row'.Open) :
    (∃ row ∈ s.world.db.jobs, row.id = row'.id ∧ row.Open) ∨ row'.id ∉ s.world.issued ∨
      ∃ i pick ch k data p, a = .exec i pick ch ∧ s.tasks[i]? = some (.attempt k data p false) ∧ data.jobId = row'.id ∧
        p.stage data = .starting := by
  rcases jobs_step h hrow with hrow | ⟨i, t, ch, e, hw, ⟨row, hrow₀, hf⟩ | ⟨data, rfl, rfl, hn, -⟩⟩
  · exact Or.inl ⟨row', hrow, rfl, ho⟩
  · cases hf with
    | same | cleared | progress => exact Or.inl ⟨_, hrow₀, rfl, ho⟩
    | cancelled => rcases ho with ho | ho <;> cases ho
    | status _ st ex =>
      have hst : st = .pending ∨ st = .active := ho
      rcases status_writer hr hw with ⟨k, data, p, rfl, hid, ⟨hg, -⟩ | ⟨o, -, rfl⟩⟩ | ⟨m, -, rfl⟩
      · obtain ⟨pick, ha⟩ := hw.action
        exact Or.inr (Or.inr ⟨i, pick, ch, k, data, p, ha, hw.task, hid, hg⟩)
      · rcases hst with hst | hst <;> cases hst
      · rcases hst with hst | hst <;> cases hst
  · exact Or.inr (Or.inl hn)

theorem openWorked_step (hr : (platform cfg).Reach ok s) (h : Stepped cfg s a s') (hok : ListenerKept jobId s a)
    (hI : OpenWorked jobId s) : OpenWorked jobId s' := by
  intro k job' row' hk hid hrow hrid ho
  rcases entry_back h hk with ⟨job, hk₀, hm⟩ | ⟨_, _, _, _, _, _, _, -, -, -, rfl⟩
  swap
  · exact Or.inl ⟨k, _, hk, rfl, hid⟩
  rw [hm.payload] at hid
  rcases open_back hr h hrow ho with ⟨row, hrow₀, hrid₀, ho₀⟩ | hn | ⟨i, pick, ch, l, data, p, rfl, ht, hdata, hg⟩
  · rcases works_step h hok (hI k job row hk₀ hid hrow₀ (hrid₀.trans hrid) ho₀) with hw | hclosed
    · exact hw
    · exact absurd ho (hclosed row' hrow hrid)
  · rw [hrid, ← hid] at hn
    exact absurd ((issued hr).entries hk₀).1 hn
  · obtain ⟨aw, hn, -, ht'⟩ := attempt_acts h ht
    have hw := works_of_attempt h ht hn (.exec ch aw.call) (fun o => by rw [hg]; exact ⟨nofun, nofun⟩)
    rw [hdata, hrid] at hw
    rcases hw with hw | hrows
    · exact Or.inr ⟨i, _, ht', hw⟩
    · rcases ho with ho | ho <;> cases ho.symm.trans (hrows row' hrow hrid)

theorem openWorked (h : (platform cfg).Reach (ListenerKept jobId) s) : OpenWorked jobId s := by
  refine h.invariant (fun s h0 => ?_) (fun s a s' hr hI hok hs => openWorked_step hr (step_cases hs) hok hI)
  subst h0
  intro k job row hk
  cases hk

/-! ## The deliveries a job has left -/

/-- A bound on the deliveries and settlements BullMQ has still to make of a job. -/
def BullJob.left (job : BullJob) : Nat :=
  match job.state with
  | .waiting => 2 * (attempts - job.attemptsMade)
  | .active _ => 2 * (attempts - job.attemptsMade) - 1
  | .completed | .failed => 0

/-- A job moves closer to its end, unless its lock is taken away. -/
theorem EntryMoves.left {k : Nat} {job job' : BullJob} (h : EntryMoves s a k job job') (hne : a ≠ .stall k)
    (hlt : (job.state = .waiting ∨ ∃ i, job.state = .active i) → job.attemptsMade < attempts) : job' = job ∨ job'.left < job.left := by
  cases h with
  | stays => exact Or.inl rfl
  | stalled ha => exact absurd ha hne
  | delivered ha hw =>
    have := hlt (Or.inl hw)
    refine Or.inr ?_
    simp only [BullJob.left, hw]
    omega
  | finished _ _ _ hl | gaveUp _ _ _ hl =>
    have := hlt (Or.inr ⟨_, hl⟩)
    refine Or.inr ?_
    simp only [BullJob.left, hl]
    omega
  | retries _ _ _ hl hm =>
    refine Or.inr ?_
    simp only [BullJob.left, hl]
    omega

/-- A settlement releases the lock. -/
theorem settle_releases {i k : Nat} {job : BullJob} (h : Stepped cfg s (.settle i) s') (hk : s.world.queue[k]? = some job)
    {data : JobPayload} {p : Attempt} (ht : s.tasks[i]? = some (.attempt k data p false)) (hl : job.state = .active i) :
    ∃ job', s'.world.queue[k]? = some job' ∧ job' ≠ job := by
  obtain ⟨job', hk', hm⟩ := entry_forward h hk
  refine ⟨job', hk', ?_⟩
  cases hm with
  | stays hne => exact absurd hl (hne rfl ht)
  | delivered ha | stalled ha => cases ha
  | finished | retries | gaveUp =>
    intro heq
    have hst := congrArg BullJob.state heq
    rw [hl] at hst
    cases hst

/-! ## The calls of a task come to an end -/

section Run

variable {state : Nat → System} {act : Nat → Action} {n m i k : Nat} {t : Task} {job : BullJob}

theorem run_stepped (h : (platform cfg).Run state act) (n : Nat) : Stepped cfg (state n) (act n) (state (n + 1)) :=
  step_cases (h.step n)

/-- A place of the pool is never given up. -/
theorem task_at (h : (platform cfg).Run state act) (ht : (state n).tasks[i]? = some t) (hnm : n ≤ m) :
    ∃ t', (state m).tasks[i]? = some t' := by
  refine h.stable (P := fun s => ∃ t', s.tasks[i]? = some t') ?_ hnm ⟨t, ht⟩
  rintro s a s' - ⟨t, ht⟩ hs
  obtain ⟨t', ht', -⟩ := task_forward (step_cases hs) ht
  exact ⟨t', ht'⟩

/-- The rank of task `i`, where there is one. -/
def rankAt (i : Nat) (s : System) : Nat ×ₗ Nat := (s.tasks[i]?.map Task.rank).getD (toLex (0, 0))

theorem rankAt_step (h : Stepped cfg s a s') (ht : s.tasks[i]? = some t) :
    (rankAt i s' = rankAt i s ∧ a.caller ≠ some i) ∨ rankAt i s' < rankAt i s := by
  obtain ⟨t', ht', hm⟩ := task_forward h ht
  have hrank : rankAt i s = t.rank := by simp [rankAt, ht]
  have hrank' : rankAt i s' = t'.rank := by simp [rankAt, ht']
  rw [hrank, hrank']
  exact hm.rank

/-- In a run that is fair to a task the task comes to its end, and stays there. -/
theorem tasks_end (h : (platform cfg).Run state act)
    (hcalls : Lts.WeaklyFair (fun n => (state n).Awaits cfg i) (fun n => (act n).caller = some i))
    (ht : (state n).tasks[i]? = some t) : ∀ᶠ m in atTop, ∃ t', (state m).tasks[i]? = some t' ∧ t'.over = true := by
  have hranks : ∀ᶠ m in atTop, (rankAt i (state (m + 1)) = rankAt i (state m) ∧ (act m).caller ≠ some i) ∨
      rankAt i (state (m + 1)) < rankAt i (state m) := by
    refine (eventually_ge_atTop n).mono (fun m hnm => ?_)
    obtain ⟨t', ht'⟩ := task_at h ht hnm
    exact rankAt_step (run_stepped h m) ht'
  have hstops : ¬ ∀ᶠ m in atTop, (state m).Awaits cfg i := by
    refine hcalls.not_possible (fun m => rankAt i (state m)) (hranks.mono ?_) (hranks.mono ?_)
    · rintro m (⟨heq, -⟩ | hlt)
      · exact le_of_eq heq
      · exact le_of_lt hlt
    · rintro m (⟨-, hne⟩ | hlt) hcall
      · exact absurd hcall hne
      · exact hlt
  obtain ⟨m, hnm, hm⟩ := Lts.exists_not_of_not_eventually hstops n
  obtain ⟨t', ht'⟩ := task_at h ht hnm
  refine h.eventually (P := fun s => ∃ t', s.tasks[i]? = some t' ∧ t'.over = true) ?_ (n := m) ⟨t', ht', ?_⟩
  · rintro s a s' - ⟨t, ht, he⟩ hs
    obtain ⟨t', ht', hm⟩ := task_forward (step_cases hs) ht
    exact ⟨t', ht', hm.over he⟩
  · rcases acts_or_ended cfg (t := t') (by rintro k data p b rfl; exact todoLeft (h.reach m) i k data p b ht') with ⟨aw, haw⟩ | he
    · exact absurd ⟨t', 0, aw, ht', haw⟩ hm
    · exact he

/-! ## The jobs of the queue come to an end -/

/-- A job of the queue keeps its place and its payload. -/
theorem entry_at (h : (platform cfg).Run state act) (hk : (state n).world.queue[k]? = some job) (hnm : n ≤ m) :
    ∃ job', (state m).world.queue[k]? = some job' ∧ job'.payload = job.payload := by
  refine h.stable (P := fun s => ∃ job', s.world.queue[k]? = some job' ∧ job'.payload = job.payload) ?_ hnm ⟨job, hk, rfl⟩
  rintro s a s' - ⟨job₁, hk₁, hp⟩ hs
  obtain ⟨job₂, hk₂, hm⟩ := entry_forward (step_cases hs) hk₁
  exact ⟨job₂, hk₂, hm.payload.trans hp⟩

/-- A job whose lock is not taken away for ever stays as it is from some time on. -/
theorem entry_rests (h : (platform cfg).Run state act) (hk : (state n).world.queue[k]? = some job)
    (hstall : ∀ᶠ m in atTop, act m ≠ .stall k) : ∃ job', ∀ᶠ m in atTop, (state m).world.queue[k]? = some job' := by
  have hmoves : ∀ᶠ m in atTop, ∃ job job', (state m).world.queue[k]? = some job ∧ (state (m + 1)).world.queue[k]? = some job' ∧
      (job' = job ∨ job'.left < job.left) := by
    filter_upwards [hstall, eventually_ge_atTop n] with m hne hnm
    obtain ⟨job₁, hk₁, -⟩ := entry_at h hk hnm
    obtain ⟨job₂, hk₂, hm⟩ := entry_forward (run_stepped h m) hk₁
    exact ⟨job₁, job₂, hk₁, hk₂, hm.left hne (attemptsLeft (h.reach m) k job₁ hk₁)⟩
  let rank (m : Nat) : Nat := (((state m).world.queue[k]?).map BullJob.left).getD 0
  obtain ⟨x, hx⟩ : ∃ x, ∀ᶠ m in atTop, rank m = x := by
    refine Lts.eventually_constant (hmoves.mono ?_)
    rintro m ⟨job, job', hk, hk', hm⟩
    simp only [rank, hk, hk', Option.map_some, Option.getD_some]
    rcases hm with rfl | hlt
    · exact Nat.le_refl _
    · exact Nat.le_of_lt hlt
  obtain ⟨N, hN⟩ := eventually_atTop.1 (hmoves.and (hx.and ((tendsto_add_atTop_nat 1).eventually hx)))
  obtain ⟨⟨job₀, -, hk₀, -⟩, -⟩ := hN N (Nat.le_refl N)
  refine ⟨job₀, Lts.eventually_of_kept (P := fun m => (state m).world.queue[k]? = some job₀) hk₀ (fun m hm hkm => ?_)⟩
  obtain ⟨⟨job₁, job₂, hk₁, hk₂, hmove⟩, hr, hr'⟩ := hN m hm
  cases hkm.symm.trans hk₁
  rcases hmove with rfl | hlt
  · exact hk₂
  · simp only [rank, hk₁, hk₂, Option.map_some, Option.getD_some] at hr hr'
    omega

/-- In a fair run a job whose lock is not taken away for ever is completed or given up. -/
theorem entry_finishes (h : (platform cfg).Run state act) (hfair : Fair cfg state act) (hk : (state n).world.queue[k]? = some job)
    (hstall : ∀ᶠ m in atTop, act m ≠ .stall k) :
    ∃ job', (∀ᶠ m in atTop, (state m).world.queue[k]? = some job') ∧ (job'.state = .completed ∨ job'.state = .failed) := by
  obtain ⟨job', hrest⟩ := entry_rests h hk hstall
  have hrest' : ∀ᶠ m in atTop, (state (m + 1)).world.queue[k]? = some job' := (tendsto_add_atTop_nat 1).eventually hrest
  refine ⟨job', hrest, ?_⟩
  cases hst : job'.state with
  | completed => exact Or.inl rfl
  | failed => exact Or.inr rfl
  | waiting =>
    obtain ⟨m, hact, hkm⟩ := ((hfair.deliveries k (hrest.mono (fun m hm => ⟨job', hm, hst⟩))).and_eventually hrest').exists
    have hstep := run_stepped h m
    rw [hact] at hstep
    obtain ⟨job₁, hk₁, hst₁⟩ := deliver_locks hstep
    cases hkm.symm.trans hk₁
    cases hst.symm.trans hst₁
  | active i =>
    have hholds : ∀ᶠ m in atTop, ∃ p, (state m).tasks[i]? = some (.attempt k job'.payload p false) :=
      hrest.mono (fun m hm => (locked (h.reach m)).lock hm hst)
    obtain ⟨m₀, p₀, ht₀⟩ := hholds.exists
    have hunsettled : ∀ᶠ m in atTop, (state m).Unsettled i := by
      filter_upwards [hholds, tasks_end h (hfair.calls i) ht₀] with m hm hend
      obtain ⟨p, ht⟩ := hm
      obtain ⟨t, ht', he⟩ := hend
      cases ht.symm.trans ht'
      exact ⟨k, _, p, ht, he⟩
    obtain ⟨m, hact, hkm, hkm', p, ht⟩ :=
      ((hfair.settlements i hunsettled).and_eventually (hrest.and (hrest'.and hholds))).exists
    have hstep := run_stepped h m
    rw [hact] at hstep
    obtain ⟨job₁, hk₁, hne⟩ := settle_releases hstep hkm ht hst
    exact absurd (Option.some.inj (hk₁.symm.trans hkm')) hne

/-! ## The work on a job comes to an end -/

/-- Task `i` is an attempt of the job that BullMQ has not settled. -/
def System.Attempts (s : System) (jobId : Uuid) (i : Nat) : Prop :=
  ∃ k data p, s.tasks[i]? = some (.attempt k data p false) ∧ data.jobId = jobId

/-- Task `i` is a listener of the job that has still to update its row. -/
def System.Listens (s : System) (jobId : Uuid) (i : Nat) : Prop :=
  ∃ message, s.tasks[i]? = some (.failedListener jobId message .updateStatus)

/-- An attempt that is settled stays so. -/
theorem stays_settled_attempt (h : Stepped cfg s a s') {i l : Nat} {data : JobPayload} {p : Attempt}
    (ht : s.tasks[i]? = some (.attempt l data p true)) : ∃ p', s'.tasks[i]? = some (.attempt l data p' true) := by
  obtain ⟨t', ht', hm⟩ := task_forward h ht
  cases hm with
  | waits => exact ⟨p, ht'⟩
  | attempt => exact ⟨_, ht'⟩

/-- Task `i` is an unsettled attempt only for some time. -/
theorem attempt_moves_on (h : (platform cfg).Run state act) (hfair : Fair cfg state act) (i : Nat) :
    ∀ᶠ m in atTop, ¬ (state m).Attempts jobId i := by
  by_cases hever : ∃ m, (state m).Attempts jobId i
  swap
  · exact Eventually.of_forall (fun m hm => hever ⟨m, hm⟩)
  obtain ⟨m₀, l, data, p, ht₀, hid⟩ := hever
  have hshape : ∀ m, m₀ ≤ m → ∃ p b, (state m).tasks[i]? = some (.attempt l data p b) := by
    intro m hm
    refine h.stable (P := fun s => ∃ p b, s.tasks[i]? = some (.attempt l data p b)) ?_ hm ⟨p, false, ht₀⟩
    rintro s a s' - ⟨p, b, ht⟩ hs
    obtain ⟨t', ht', hm⟩ := task_forward (step_cases hs) ht
    cases hm with
    | waits => exact ⟨p, b, ht'⟩
    | attempt | settled => exact ⟨_, _, ht'⟩
  have hsettled : ¬ ∀ᶠ m in atTop, ∃ p, (state m).tasks[i]? = some (.attempt l data p false) := by
    intro hunsettled
    have hpossible : ∀ᶠ m in atTop, (state m).Unsettled i := by
      filter_upwards [hunsettled, tasks_end h (hfair.calls i) ht₀] with m ⟨p, ht⟩ ⟨t, ht', he⟩
      cases ht.symm.trans ht'
      exact ⟨l, data, p, ht, he⟩
    obtain ⟨m, hact, hm⟩ := ((hfair.settlements i hpossible).and_eventually ((tendsto_add_atTop_nat 1).eventually hunsettled)).exists
    obtain ⟨p, ht⟩ := hm
    have hstep := run_stepped h m
    rw [hact] at hstep
    rcases task_back hstep ht with ⟨t, ht', hmove⟩ | ⟨-, hsp⟩
    · cases hmove with
      | waits _ hw => exact hw rfl
      | attempt _ hr => cases hr
    · cases hsp with
      | attempt ha => cases ha
  obtain ⟨m, hm, hnot⟩ := Lts.exists_not_of_not_eventually hsettled m₀
  obtain ⟨p, b, ht⟩ := hshape m hm
  cases b with
  | false => exact absurd ⟨p, ht⟩ hnot
  | true =>
    refine (h.eventually (P := fun s => ∃ p, s.tasks[i]? = some (.attempt l data p true)) ?_ ⟨p, ht⟩).mono ?_
    · rintro s a s' - ⟨p, ht⟩ hs
      exact stays_settled_attempt (step_cases hs) ht
    · rintro m ⟨p, ht⟩ ⟨_, _, _, ht', -⟩
      cases ht.symm.trans ht'

/-- From some time on every attempt of a job that is done in the queue is settled. -/
theorem attempts_die (h : (platform cfg).Run state act) (hfair : Fair cfg state act) (hjob : job.payload.jobId = jobId)
    (hdone : job.state = .completed ∨ job.state = .failed) (hrest : ∀ᶠ m in atTop, (state m).world.queue[k]? = some job) :
    ∀ᶠ m in atTop, ∀ i, ¬ (state m).Attempts jobId i := by
  obtain ⟨N, hN⟩ := eventually_atTop.1 hrest
  refine Lts.eventually_none (state N).tasks.length ?_ (attempt_moves_on h hfair)
  refine Lts.eventually_of_kept (n := N) ?_ ?_
  · rintro i ⟨l, data, p, ht, -⟩
    exact (List.getElem?_eq_some_iff.1 ht).1
  rintro m hm hlt i ⟨l, data, p, ht, hid⟩
  rcases task_back (run_stepped h m) ht with ⟨t, ht₀, hmove⟩ | ⟨-, hsp⟩
  · cases hmove with
    | waits => exact hlt i ⟨l, data, p, ht₀, hid⟩
    | attempt => exact hlt i ⟨l, data, _, ht₀, hid⟩
  · cases hsp with
    | attempt _ hk' hw hd =>
      -- the job, which is done, would be delivered once more
      rw [hd, ← hjob] at hid
      cases (oneEntry (h.reach m)).entries hk' (hN m hm) hid
      cases hk'.symm.trans (hN m hm)
      rw [hw] at hdone
      rcases hdone with hdone | hdone <;> cases hdone

/-- Task `i` is a listener that has still to update the row only for some time. -/
theorem listener_leaves (h : (platform cfg).Run state act) (hfair : Fair cfg state act) (i : Nat) :
    ∀ᶠ m in atTop, ¬ (state m).Listens jobId i := by
  by_cases hever : ∃ m, (state m).Listens jobId i
  swap
  · exact Eventually.of_forall (fun m hm => hever ⟨m, hm⟩)
  obtain ⟨m₀, message, ht₀⟩ := hever
  refine (tasks_end h (hfair.calls i) ht₀).mono ?_
  rintro m ⟨t, ht, he⟩ ⟨message', ht'⟩
  cases ht.symm.trans ht'
  cases he

/-- From some time on no listener of the job has still to update its row. -/
theorem listeners_die (h : (platform cfg).Run state act) (hfair : Fair cfg state act)
    (hnone : ∀ᶠ m in atTop, ∀ i, ¬ (state m).Attempts jobId i) : ∀ᶠ m in atTop, ∀ i, ¬ (state m).Listens jobId i := by
  obtain ⟨N, hN⟩ := eventually_atTop.1 hnone
  refine Lts.eventually_none (state N).tasks.length ?_ (listener_leaves h hfair)
  refine Lts.eventually_of_kept (n := N) ?_ ?_
  · rintro i ⟨message, ht⟩
    exact (List.getElem?_eq_some_iff.1 ht).1
  rintro m hm hlt i ⟨message, ht⟩
  rcases task_back (run_stepped h m) ht with ⟨t, ht₀, hmove⟩ | ⟨-, hsp⟩
  · cases hmove with
    | waits => exact hlt i ⟨message, ht₀⟩
    | @failedListener _ _ p _ _ r _ hn hr he =>
      have hlt := failedListener_left hn r
      rw [he] at hlt
      cases p <;> exact absurd hlt (by decide)
  · cases hsp with
    | failedListener ha ht' ho hj => exact absurd ⟨_, _, _, ht', hj.symm⟩ (hN m hm _)

/-- A job whose lock is taken away only finitely often is finished from some time on, unless an update of its `failed` listeners
fails. -/
theorem job_finishes (h : (platform cfg).Run state act) (hfair : Fair cfg state act) (hk : (state n).world.queue[k]? = some job)
    (hstall : ∀ᶠ m in atTop, act m ≠ .stall k) (hkept : ∀ m, ListenerKept job.payload.jobId (state m) (act m)) :
    ∀ᶠ m in atTop, Finished (state m) k := by
  obtain ⟨job', hrest, hdone⟩ := entry_finishes h hfair hk hstall
  have hpayload : job'.payload = job.payload := by
    obtain ⟨m, hm, hnm⟩ := (hrest.and (eventually_ge_atTop n)).exists
    obtain ⟨job₁, hk₁, hp⟩ := entry_at h hk hnm
    cases hm.symm.trans hk₁
    exact hp
  have hattempts := attempts_die h hfair (congrArg JobPayload.jobId hpayload) hdone hrest
  filter_upwards [hrest, hattempts, listeners_die h hfair hattempts] with m hm hnone hsilent
  refine ⟨job', hm, hdone, fun row hrow hid => ?_⟩
  rw [hpayload] at hid
  by_contra hst
  have hopen : row.Open := by
    cases hrs : row.status with
    | pending => exact Or.inl hrs
    | active => exact Or.inr hrs
    | completed => exact absurd (Or.inl hrs) hst
    | failed => exact absurd (Or.inr hrs) hst
  have hwork := openWorked (h.reach_of hkept m) k job' row hm (congrArg JobPayload.jobId hpayload) hrow hid hopen
  rcases hwork with ⟨l, job₁, hl, hw, hid₁⟩ | ⟨i, t, ht, hw⟩
  · cases (oneEntry (h.reach m)).entries hl hm (hid₁.trans (congrArg JobPayload.jobId hpayload).symm)
    cases hl.symm.trans hm
    rw [hw] at hdone
    rcases hdone with hdone | hdone <;> cases hdone
  · cases hw with
    | attempt l hid₁ => exact hnone i ⟨l, _, _, ht, hid₁⟩
    | listener message => exact hsilent i ⟨message, ht⟩

end Run

/-! ## The result -/

/-- What a run comes to: every task ends, and every job of the queue is finished whose lock is taken away only finitely often and
whose `failed` listeners can write its row. A listener is started for every attempt that is settled as failed, also for one that no
longer held its lock. -/
structure Completes (state : Nat → System) (act : Nat → Action) : Prop where
  tasks : ∀ (n i : Nat) (t : Task), (state n).tasks[i]? = some t → ∀ᶠ m in atTop, ∃ t' : Task, (state m).tasks[i]? = some t' ∧ t'.over = true
  jobs : ∀ (n k : Nat) (job : BullJob), (state n).world.queue[k]? = some job → (∀ᶠ m in atTop, act m ≠ .stall k) →
    (∀ m, ListenerKept job.payload.jobId (state m) (act m)) → ∀ᶠ m in atTop, Finished (state m) k

theorem fair_runs_complete {state : Nat → System} {act : Nat → Action} (h : (platform cfg).Run state act)
    (hfair : Fair cfg state act) : Completes state act where
  tasks _ _ _ ht := tasks_end h (hfair.calls _) ht
  jobs _ _ _ hk hstall hkept := job_finishes h hfair hk hstall hkept

/-- A system in which nothing is left to do: every task has ended, every attempt is settled, no job waits. -/
def System.atRest (s : System) : Bool :=
  s.tasks.all (fun t => t.over && match t with
    | .attempt _ _ _ settled => settled
    | _ => true) &&
  s.world.queue.all (fun job => job.state != .waiting)

theorem next_of_over {pick : Nat} {t : Task} (he : t.over = true) : t.next cfg pick = none := by
  cases t with
  | attempt k data p b =>
    obtain ⟨o, ho⟩ := Option.isSome_iff_exists.1 he
    exact Option.map_eq_none_iff.2 (next_of_outcome pick ho)
  | report r done =>
    cases done with
    | false => cases he
    | true => rfl
  | createUploadUrl u input p | confirmUpload u f p | deleteFile u f p | createJob u f ty o p | cancelJob u j p
    | failedListener j m p | sweep kind p =>
    cases p <;> first | rfl | cases he

/-- A run that comes to rest is fair. -/
theorem fair_of_rest {s : System} {as : List Action} (h : s.atRest = true) :
    Fair cfg ((platform cfg).stateAt System.empty s as) (Lts.labelAt (.tick 0) as) := by
  obtain ⟨htasks, hqueue⟩ := Bool.and_eq_true_iff.1 h
  rw [List.all_eq_true] at htasks hqueue
  refine ⟨fun i => ?_, fun k => ?_, fun i => ?_⟩
  · refine Lts.weaklyFair_of_rest (fun s : System => s.Awaits cfg i) ?_
    rintro ⟨t, pick, aw, ht, hn⟩
    rw [next_of_over (Bool.and_eq_true_iff.1 (htasks t (List.mem_of_getElem? ht))).1] at hn
    cases hn
  · refine Lts.weaklyFair_of_rest (fun s : System => s.Queued k) ?_
    rintro ⟨job, hk, hw⟩
    have hne := hqueue job (List.mem_of_getElem? hk)
    rw [hw] at hne
    exact absurd hne (by decide)
  · refine Lts.weaklyFair_of_rest (fun s : System => s.Unsettled i) ?_
    rintro ⟨k, data, p, ht, -⟩
    cases (Bool.and_eq_true_iff.1 (htasks _ (List.mem_of_getElem? ht))).2

/-- An upload, a job for it, and the one attempt that completes it. -/
def completedJob : List Action :=
  Trace.upload ++ Trace.job ++ [.deliver 0] ++ Trace.untilOutput 3 30 ++ [Trace.call 3 0, Trace.call 3 0, .settle 3]

/-- The call of a task fails in transit. -/
def Action.isReject : Action → Bool
  | .reject _ _ _ => true
  | _ => false

theorem completedJob_finishes : ∃ state act, (platform Config.default).Run state act ∧ Fair Config.default state act ∧
    (∃ n, (state n).world.queue.length = 1) ∧ ∀ᶠ m in atTop, Finished (state m) 0 := by
  have hrun : ((platform Config.default).run System.empty completedJob).any
      (fun s => s.atRest && s.world.queue.length == 1) = true := by decide +kernel
  obtain ⟨s, hs, hrest⟩ := (Option.any_eq_true _ _).1 hrun
  obtain ⟨hrest, hlength⟩ := Bool.and_eq_true_iff.1 hrest
  have hend : (platform Config.default).stateAt System.empty s completedJob completedJob.length = s := if_pos (Nat.le_refl _)
  have hidle : (platform Config.default).step s (.tick 0) = some s := by
    simp [platform, System.step]
  have hr := Lts.Run.of_list rfl hs hidle
  obtain ⟨job, hjob⟩ := List.length_eq_one_iff.1 (beq_iff_eq.1 hlength)
  refine ⟨_, _, hr, fair_of_rest hrest, ⟨completedJob.length, by rw [hend, hjob]; rfl⟩, ?_⟩
  refine (fair_runs_complete hr (fair_of_rest hrest)).jobs completedJob.length 0 job ?_ ?_ ?_
  · rw [hend, hjob]
    rfl
  · refine (eventually_ge_atTop completedJob.length).mono (fun m hm => ?_)
    rw [Lts.labelAt, List.getElem?_eq_none hm]
    intro h
    cases h
  · intro m i pick e message ha
    have hnone : completedJob.all (fun a => !a.isReject) = true := by decide +kernel
    rcases Lts.labelAt_mem (.tick 0) completedJob m with hmem | hidle
    · rw [ha] at hmem
      cases List.all_eq_true.1 hnone _ hmem
    · cases ha.symm.trans hidle

end FileProcessing
