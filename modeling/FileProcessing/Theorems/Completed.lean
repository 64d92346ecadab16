import FileProcessing.Lemmas.Locks

/-!
# A completed job

The enumeration of the statuses has `completed` as a final one, but no update of a row looks at the status it replaces. A
completed job stays completed in the runs where the publish that follows the completion goes through, locks exclude, an attempt
keeps its lock once it has completed the row, and the listener of a failed attempt makes its update before the next delivery.
A publish that rejects is enough to lose the status: the attempt counts as failed, and its listener writes `failed`.
-/

namespace FileProcessing

variable {cfg : Config} {ok : System → Action → Prop} {s s' : System} {a : Action}

/-- Once a row is completed, no later step changes its status. -/
def CompletedStays (cfg : Config) (ok : System → Action → Prop) : Prop :=
  ∀ s s' row row', (platform cfg).Reach ok s → row ∈ s.world.db.jobs → row.status = .completed →
    (platform cfg).Steps ok s s' → row' ∈ s'.world.db.jobs → row'.id = row.id → row'.status = .completed

/-- The attempt has completed its row, and announces it or has returned. -/
def Completing : Stage → Prop
  | .announcing _ | .returned _ => True
  | _ => False

/-- The conditions on a step: an attempt holds its lock when it marks a completed job active, when it completes one that is not, and
when BullMQ settles it as failed; the publish of a completion is not rejected; the lock of a completed job is not taken; and a job is
not delivered before the listeners of its failed attempts have made their update. -/
structure CompletionKept (s : System) (a : Action) : Prop where
  started : ∀ i pick ch k data p b, a = .exec i pick ch → s.tasks[i]? = some (.attempt k data p b) → p.stage data = .starting →
    (∃ row ∈ s.world.db.jobs, row.id = data.jobId ∧ row.status = .completed) → HoldsLock s i k
  completed : ∀ i pick ch k data p b o, a = .exec i pick ch → s.tasks[i]? = some (.attempt k data p b) →
    p.stage data = .completing o → (∃ row ∈ s.world.db.jobs, row.id = data.jobId ∧ row.status ≠ .completed) → HoldsLock s i k
  failed : ∀ i k data p e, a = .settle i → s.tasks[i]? = some (.attempt k data p false) → p.outcome = some (.error e) →
    HoldsLock s i k
  announced : ∀ i pick e k data p b, a = .reject i pick e → s.tasks[i]? = some (.attempt k data p b) →
    ¬ Completing (p.stage data)
  locked : ∀ k job, a = .stall k → s.world.queue[k]? = some job →
    ∀ row ∈ s.world.db.jobs, row.id = job.payload.jobId → row.status ≠ .completed
  delivered : ∀ k job, a = .deliver k → s.world.queue[k]? = some job →
    ∀ (i : Nat) m, s.tasks[i]? ≠ some (.failedListener job.payload.jobId m .updateStatus)

/-- An attempt that has completed its row does not fail. -/
theorem completing_not_fails (hok : CompletionKept s a) {i k : Nat} {data : JobPayload} {p : Attempt} {b : Bool}
    (ht : s.tasks[i]? = some (.attempt k data p b)) (hg : Completing (p.stage data)) : ¬ CallFails s a i data p := by
  rintro ⟨pick, aw, e, hn, hr⟩
  rcases hr.of_error with rfl | ⟨ch, rfl, he⟩
  · exact hok.announced i pick e k data p b rfl ht hg
  · have hc := (attempt_stage hn).1
    generalize p.stage data = g at hc hg
    generalize hf : aw.call.effect = f at hc
    cases hc with
    | announce o =>
      obtain ⟨v, hv⟩ := exec_publish hf ch s.world
      rw [hv] at he
      cases he
    | start | idle | progress | publish | put | insert | complete => exact hg

/-- What `Completing` attempts do keeps them so. -/
theorem completing_next {data : JobPayload} {g g' : Stage} {α : Type} {c : Call α} {v : α} (h : StageStep data g c (.ok v) g')
    (hg : Completing g) : Completing g' := by
  cases h with
  | announced => trivial
  | started | worked | gaveUp | finished | stored | inserted | completed => exact hg.elim

/-! ## The listeners of a job that can be delivered -/

/-- While a listener of a job has its update to make, the entry of the job is waiting or given up. -/
def ListenersFirst (s : System) : Prop :=
  ∀ (i k : Nat) j m job, s.tasks[i]? = some (.failedListener j m .updateStatus) → s.world.queue[k]? = some job →
    job.payload.jobId = j → job.state = .waiting ∨ job.state = .failed

/-- A listener has its update to make since it was spawned. -/
theorem listener_waits {j : Uuid} {m : String} {i : Nat} {t : Task}
    (hm : TaskMoves cfg s a i t (.failedListener j m .updateStatus)) : t = .failedListener j m .updateStatus := by
  cases hm with
  | waits => rfl
  | @failedListener _ _ p _ aw r _ hn hr he => cases p <;> cases hn <;> cases r <;> cases he

/-- A step keeps the entry so: a listener is spawned by an attempt that held the lock, and the entry is not delivered before it. -/
theorem listenersFirst_step (hreach : (platform cfg).Reach CompletionKept s) (hok : CompletionKept s a)
    (h : Stepped cfg s a s') (hI : ListenersFirst s) :
    ListenersFirst s' := by
  intro i k j m job' hi hk hj
  rcases task_back h hi with ⟨t, ht, hm⟩ | ⟨-, hsp⟩
  · cases listener_waits hm
    rcases entry_back h hk with ⟨job, hk₀, hmv⟩ | ⟨_, _, _, _, _, _, _, -, -, -, rfl⟩
    · have hold := hI i k j m job ht hk₀ (hmv.payload ▸ hj)
      cases hmv with
      | stays => exact hold
      | delivered ha => exact absurd ht (hj ▸ hok.delivered k job ha hk₀ i m)
      | stalled => exact Or.inl rfl
      | finished _ _ _ hl => rcases hold with hold | hold <;> rw [hold] at hl <;> cases hl
      | retries => exact Or.inl rfl
      | gaveUp => exact Or.inr rfl
    · exact Or.inl rfl
  · cases hsp with
    | @failedListener l k₀ data p e _ _ ha ht ho hjd hmd =>
      subst hjd
      obtain ⟨entry, hentry, hdata⟩ := (locked hreach).entry ht
      obtain ⟨entry', hentry', hact⟩ := hok.failed l k₀ data p e ha ht ho
      rw [hentry] at hentry'
      cases hentry'
      rcases entry_back h hk with ⟨job, hk₀, hmv⟩ | ⟨_, _, _, _, _, _, _, -, ⟨_, ha'⟩, -⟩
      · have hkk : k = k₀ := (oneEntry hreach).entries hk₀ hentry (by rw [← hmv.payload, hj, hdata])
        subst hkk
        rw [hentry] at hk₀
        cases hk₀
        cases hmv with
        | stays hl => exact absurd hact (hl ha ht)
        | delivered ha' => rw [ha] at ha'; cases ha'
        | stalled => exact Or.inl rfl
        | finished ha' ht' ho' =>
          rw [ha] at ha'
          cases ha'
          rw [ht] at ht'
          cases ht'
          rw [ho] at ho'
          cases ho'
        | retries => exact Or.inl rfl
        | gaveUp => exact Or.inr rfl
      · rw [ha] at ha'
        cases ha'

/-- The invariant, in a run where completions are kept. -/
theorem listenersFirst (h : (platform cfg).Reach CompletionKept s) : ListenersFirst s := by
  refine h.invariant ?_ (fun s a s' hreach hI hok hs => listenersFirst_step hreach hok (step_cases hs) hI)
  rintro s rfl i k j m job hi
  cases hi

/-! ## The job of a completed row -/

/-- The job of a completed row has ended, or is about to: its entry is past the completion, no listener of it has an update to
make, and it is not about to be enqueued. -/
structure Over (s : System) (jobId : Uuid) : Prop where
  issued : jobId ∈ s.world.issued
  entries : ∀ (k : Nat) job, s.world.queue[k]? = some job → job.payload.jobId = jobId → Past (fun _ => Completing) s k
  listeners : ∀ (i : Nat) m, s.tasks[i]? ≠ some (.failedListener jobId m .updateStatus)
  creates : ∀ (i : Nat) u f ty o row, s.tasks[i]? = some (.createJob u f ty o (.add row)) → row.id ≠ jobId

/-- What is over stays over, when its entry keeps its lock. -/
theorem over_step (hr : (platform cfg).Reach ok s) (hok : CompletionKept s a) (h : Stepped cfg s a s') {jobId : Uuid}
    (hstall : ∀ (k : Nat) job, s.world.queue[k]? = some job → job.payload.jobId = jobId → a ≠ .stall k) (hI : Over s jobId) :
    Over s' jobId where
  issued := issued_step h hI.issued
  entries k job' hk hj := by
    rcases entry_back h hk with ⟨job, hk₀, hm⟩ | ⟨i, u, f, ty, o, row, ch, -, -, ht, rfl⟩
    · rw [hm.payload] at hj
      exact past_step h (fun hs => completing_next hs) (fun _ _ hg => hg.elim) (hstall k job hk₀ hj)
        (fun _ ht hg hf => absurd hf (completing_not_fails hok ht hg)) (hI.entries k job hk₀ hj)
    · exact absurd hj (hI.creates i u f ty o row ht)
  listeners i m hi := by
    rcases task_back h hi with ⟨t, ht, hm⟩ | ⟨-, hsp⟩
    · cases listener_waits hm
      exact hI.listeners i m ht
    · cases hsp with
      | @failedListener l k data p e _ _ ha ht ho hj hm =>
        obtain ⟨entry, hentry, hdata⟩ := (locked hr).entry ht
        have hp := hI.entries k entry hentry (by rw [hdata, hj])
        have hg := stage_of_past hr hp hentry (by rw [hdata]) (hok.failed l k data p e ha ht ho) ht
        rcases outcome_eq (d := data) ho with ⟨_, -, ho'⟩ | ⟨e', hst, -⟩
        · cases ho'
        · rw [hst] at hg
          exact hg
  creates i u f ty o row hi hid := by
    rcases task_back h hi with ⟨t, ht, hm⟩ | ⟨-, hsp⟩
    · rcases create_adds h ht hm with ⟨rfl, -⟩ | ⟨rfl, pick, ch, -, rfl, hn, -⟩
      · exact hI.creates i u f ty o row ht hid
      · have hid' : ch.id = jobId := hid
        exact hn (hid' ▸ hI.issued)
    · cases hsp

/-- An attempt that completes the row of its job, under its lock, leaves the job over. -/
theorem over_of_completed (hr : (platform cfg).Reach CompletionKept s) (h : Stepped cfg s a s')
    {i k : Nat} {data : JobPayload} {p : Attempt} {ch : Choice} {e : Effect} {o : Option FileRow}
    (hw : Wrote s a i (.attempt k data p false) ch e) (hst : p.stage data = .completing o)
    (hl : HoldsLock s i k) (hnew : ∃ row ∈ s'.world.db.jobs, row ∉ s.world.db.jobs) : Over s' data.jobId := by
  obtain ⟨pick, rfl⟩ := hw.action
  obtain ⟨job, hk, hdata⟩ := (locked hr).entry hw.task
  obtain ⟨job', hk', hact⟩ := hl
  rw [hk] at hk'
  cases hk'
  have hpast : Past (fun _ => Completing) s' k := by
    obtain ⟨aw, hn, hworld, htask⟩ := attempt_acts h hw.task
    cases hx : (aw.call.exec ch s.world).1 with
    | error err =>
      obtain ⟨row, hrow, hnot⟩ := hnew
      rw [hworld, exec_error hx] at hrow
      exact absurd hrow hnot
    | ok v =>
      have hstep := (attempt_stage hn).2 (.ok v)
      rw [hst] at hstep
      obtain ⟨job', hk', hm⟩ := entry_forward h hk
      cases hm with
      | stays =>
        subst hdata
        refine ⟨job, hk', Or.inr (Or.inr ⟨i, _, hact, htask, ?_⟩)⟩
        rw [hx, hstep.of_completing]
        trivial
      | delivered ha | stalled ha | finished ha | retries ha | gaveUp ha => cases ha
  refine ⟨?_, fun l job' hl hj => ?_, fun i' m hi => ?_, fun i' u f ty o' row hi hid => ?_⟩
  · exact issued_step h (hdata ▸ ((issued hr).entries hk).1)
  · rcases entry_back h hl with ⟨job₀, hl₀, hm⟩ | ⟨i', u, f, ty, o', row, ch', -, ⟨pick', ha⟩, ht, -⟩
    · have hkl : l = k := (oneEntry hr).entries hl₀ hk (by rw [← hm.payload, hj, hdata])
      rw [hkl]
      exact hpast
    · cases ha
      rw [hw.task] at ht
      cases ht
  · rcases task_back h hi with ⟨t, ht, hm⟩ | ⟨-, hsp⟩
    · cases listener_waits hm
      rcases listenersFirst hr i' k data.jobId m job ht hk (by rw [hdata]) with hs | hs <;> rw [hact] at hs <;> cases hs
    · cases hsp with
      | failedListener ha => cases ha
  · rcases task_back h hi with ⟨t, ht, hm⟩ | ⟨-, hsp⟩
    · rcases create_adds h ht hm with ⟨rfl, -⟩ | ⟨rfl, pick', ch', -, rfl, hn, -⟩
      · exact (oneEntry hr).fresh ht hk (by rw [hdata, hid])
      · have hid' : ch'.id = data.jobId := hid
        exact hn (hid' ▸ hdata ▸ ((issued hr).entries hk).1)
    · cases hsp

/-- The job of every completed row is over. -/
def CompletedOver (s : System) : Prop := ∀ row ∈ s.world.db.jobs, row.status = .completed → Over s row.id

/-- A step keeps the jobs of completed rows over. -/
theorem completedOver_step (hreach : (platform cfg).Reach CompletionKept s) (hok : CompletionKept s a)
    (h : Stepped cfg s a s') (hI : CompletedOver s) :
    CompletedOver s' := by
  intro row' hr' hdone
  have keep {row : JobRow} (hrow : row ∈ s.world.db.jobs) (hc : row.status = .completed) : Over s' row.id :=
    over_step hreach hok h (fun k job hk hj ha => hok.locked k job ha hk row hrow hj.symm hc) (hI row hrow hc)
  by_cases hold : row' ∈ s.world.db.jobs
  · exact keep hold hdone
  rcases jobs_step h hr' with hrow | ⟨i, t, ch, e, hw, ⟨row, hrow, hf⟩ | ⟨data, rfl, rfl, -⟩⟩
  · exact absurd hrow hold
  · rw [hf.core.1]
    cases hf with
    | same | cleared | progress => exact keep hrow hdone
    | status _ st ex =>
      rcases status_writer hreach hw with ⟨k, data, p, rfl, hj, ⟨-, rfl⟩ | ⟨o, hg, rfl⟩⟩ | ⟨m, rfl, rfl⟩
      · cases hdone
      · by_cases hc : row.status = .completed
        · exact keep hrow hc
        · obtain ⟨pick, ha⟩ := hw.action
          have hl := hok.completed i pick ch k data p false o ha hw.task hg ⟨row, hrow, hj.symm, hc⟩
          exact hj ▸ over_of_completed hreach h hw hg hl ⟨_, hr', hold⟩
      · cases hdone
    | cancelled => cases hdone
  · obtain ⟨u, f, ty, o, -, rfl⟩ := job_creator hw
    cases hdone

/-- The invariant, in a run where completions are kept. -/
theorem completedOver (h : (platform cfg).Reach CompletionKept s) : CompletedOver s := by
  refine h.invariant ?_ (fun s a s' hreach hI hok hs => completedOver_step hreach hok (step_cases hs) hI)
  rintro s rfl row hrow
  exact absurd hrow (Table.not_mem_empty row)

/-! ## The result -/

/-- A step does not change the status of a completed row, when completions are kept. -/
theorem completed_step (hr : (platform cfg).Reach CompletionKept s) (hok : CompletionKept s a) (h : Stepped cfg s a s')
    {jobId : Uuid} (hj : jobId ∈ s.world.issued) (hI : ∀ row ∈ s.world.db.jobs, row.id = jobId → row.status = .completed) :
    ∀ row ∈ s'.world.db.jobs, row.id = jobId → row.status = .completed := by
  intro row' hr' hid
  rcases jobs_step h hr' with hrow | ⟨i, t, ch, e, hw, ⟨row, hrow, hf⟩ | ⟨data, rfl, rfl, hn, -⟩⟩
  · exact hI row' hrow hid
  · have hc := hI row hrow (hf.core.1 ▸ hid)
    have hover := completedOver hr row hrow hc
    cases hf with
    | same | cleared | progress => exact hc
    | status _ st ex =>
      rcases status_writer hr hw with ⟨k, data, p, rfl, hj, ⟨hg, -⟩ | ⟨o, -, rfl⟩⟩ | ⟨m, rfl, -⟩
      · obtain ⟨job, hk, hdata⟩ := (locked hr).entry hw.task
        obtain ⟨pick, rfl⟩ := hw.action
        have hl := hok.started i pick ch k data p false rfl hw.task hg ⟨row, hrow, hj.symm, hc⟩
        have hst := stage_of_past hr (hover.entries k job hk (by rw [hdata, hj])) hk (by rw [hdata]) hl hw.task
        rw [hg] at hst
        exact hst.elim
      · rfl
      · exact absurd hw.task (hover.listeners i m)
    | cancelled _ hp =>
      rw [hp] at hc
      cases hc
  · have hid' : ch.id = jobId := hid
    exact absurd (hid' ▸ hj) hn

/-- A completed job stays completed in every run where completions are kept. -/
theorem completed_stays (cfg : Config) : CompletedStays cfg CompletionKept := by
  intro s s' row row' hr hrow hc hs hrow' hid
  have hj : row.id ∈ s.world.issued := (issued hr).jobs row hrow
  have hall := hs.preserves (fun s' => row.id ∈ s'.world.issued ∧ ∀ x ∈ s'.world.db.jobs, x.id = row.id → x.status = .completed)
    hr ⟨hj, fun x hx hid => (s.world.db.jobs.eq_of_key_eq hx hrow hid) ▸ hc⟩ (by
      rintro s₁ a s₂ hr₁ ⟨hi₁, hI₁⟩ hok hst
      exact ⟨issued_step (step_cases hst) hi₁, completed_step hr₁ hok (step_cases hst) hi₁ hI₁⟩)
  exact hall.2 row' hrow' hid

/-- A compression whose completion is written and whose announcement then fails, and the listener of the failed attempt. -/
def lostCompletion : List Action := Trace.upload ++ Trace.job ++ [.deliver 0] ++ Trace.untilOutput 3 30 ++ [Trace.call 3 0]

/-- A completed job does not stay completed in every run: the announcement fails, and the listener writes `failed`. -/
theorem completed_lost : ¬ CompletedStays Config.default Lts.Free := by
  intro h
  have hrun : ((platform Config.default).run System.empty lostCompletion).any (fun s =>
      s.world.db.jobs.rows.any (fun row => row.id = Trace.uuid 20 && row.status = .completed) &&
        ((platform Config.default).run s [Trace.drop 3, .settle 3, Trace.call 4 0]).any (fun s' =>
          s'.world.db.jobs.rows.any (fun row => row.id = Trace.uuid 20 && row.status = .failed))) = true := by
    decide +kernel
  obtain ⟨s, hs, hp⟩ := Trace.reach hrun
  rw [Bool.and_eq_true] at hp
  obtain ⟨s', hs', hp'⟩ := Lts.steps_of_any hp.2
  obtain ⟨row, hrow, hdone⟩ := List.any_eq_true.1 hp.1
  obtain ⟨row', hrow', hfailed⟩ := List.any_eq_true.1 hp'
  simp only [Bool.and_eq_true, decide_eq_true_eq] at hdone hfailed
  have hstays := h s s' row row' hs hrow hdone.2 hs' hrow' (hfailed.1.trans hdone.1.symm)
  rw [hfailed.2] at hstays
  cases hstays

end FileProcessing
