import FileProcessing.Lemmas.Locks

/-!
# What is still to be announced of a job

A job is busy while something that announces how it went is still to come: an entry of it waits in the queue, or a task owes an
announcement. It stops being busy only when the last such task makes its last publish or is rejected.
-/

namespace FileProcessing

variable {cfg : Config} {ok : System → Action → Prop} {s s' : System} {a : Action} {jobId : Uuid}

/-- The status an event tells. -/
def JobEvent.status : JobEvent → JobStatus
  | .progress _ status => status
  | .completed _ => .completed
  | .failed _ => .failed

/-- The task owes an announcement of the job: `create` is about to add it to the queue, an attempt of it has not returned and BullMQ
has not settled it, or a `failed` listener of it is not done. -/
inductive Owes (jobId : Uuid) : Task → Prop where
  | adds (u f : Uuid) (ty : String) (o : Option JobOptions) {row : JobRow} (h : row.id = jobId) :
      Owes jobId (.createJob u f ty o (.add row))
  | attempt (k : Nat) {data : JobPayload} {p : Attempt} (h : data.jobId = jobId) (hp : p.outcome ≠ some (.ok ())) :
      Owes jobId (.attempt k data p false)
  | listener (m : String) {p : FailedListener} (hp : p ≠ .done) : Owes jobId (.failedListener jobId m p)

/-- An entry of the job waits in the queue, for its first attempt or for a retry. -/
def Waits (s : System) (jobId : Uuid) : Prop :=
  ∃ (k : Nat) (job : BullJob), s.world.queue[k]? = some job ∧ job.state = .waiting ∧ job.payload.jobId = jobId

/-- An announcement of the job is still to come. -/
def Busy (s : System) (jobId : Uuid) : Prop := Waits s jobId ∨ ∃ (i : Nat) (t : Task), s.tasks[i]? = some t ∧ Owes jobId t

/-- An announcement of the job is still to come besides that of task `i`. -/
def BusyBeside (s : System) (i : Nat) (jobId : Uuid) : Prop :=
  Waits s jobId ∨ ∃ (j : Nat) (t : Task), j ≠ i ∧ s.tasks[j]? = some t ∧ Owes jobId t

/-- The next publish of the task is its last, with the status it tells: an attempt that has completed its row, a listener, or a
report that a failed `Promise.all` left behind. -/
inductive LastWord : Task → Uuid → JobStatus → Prop where
  | completed (k : Nat) {data : JobPayload} {p : Attempt} (b : Bool) {output : Option FileRow} (h : p.stage data = .announcing output) :
      LastWord (.attempt k data p b) data.jobId .completed
  | failed (jobId : Uuid) (m : String) : LastWord (.failedListener jobId m .publish) jobId .failed
  | progress {r : Report} (h : r.target = .channel) : LastWord (.report r false) r.jobId .active

/-- The task announces nothing once its call is rejected: `create` at its enqueue, and the listener. -/
inductive Silenced : Task → Uuid → Prop where
  | adds (u f : Uuid) (ty : String) (o : Option JobOptions) (row : JobRow) : Silenced (.createJob u f ty o (.add row)) row.id
  | listener (jobId : Uuid) (m : String) (p : FailedListener) : Silenced (.failedListener jobId m p) jobId

/-! ## A busy job stays busy -/

/-- A job that waits in the queue is busy after a step. -/
theorem waits_step (h : Stepped cfg s a s') (hw : Waits s jobId) : Busy s' jobId := by
  obtain ⟨k, job, hk, hst, hid⟩ := hw
  obtain ⟨job', hk', hm⟩ := entry_forward h hk
  have hpay := hm.payload
  cases hm with
  | stays => exact Or.inl ⟨k, job, hk', hst, hid⟩
  | delivered ha =>
    subst ha
    refine Or.inr ⟨_, _, deliver_spawns h hk, .attempt k hid ?_⟩
    intro ho
    rcases outcome_eq (d := job.payload) ho with ⟨o, hs, -⟩ | ⟨e, hs, -⟩ <;> rw [stage_start] at hs <;> cases hs
  | stalled => exact Or.inl ⟨k, _, hk', rfl, hid⟩
  | finished ha ht ho hl | retries ha ht ho hl | gaveUp ha ht ho hl =>
    rw [hst] at hl
    cases hl

/-- An attempt that threw leaves a listener of its job when BullMQ settles it. -/
theorem settle_listens (h : Stepped cfg s a s') {i k : Nat} {data : JobPayload} {p : Attempt}
    (ht : s.tasks[i]? = some (.attempt k data p false)) (ha : a = .settle i) {e : Err} (ho : p.outcome = some (.error e)) :
    Busy s' data.jobId := by
  subst ha
  cases h with
  | settle ht' ho' =>
    rw [ht] at ht'
    cases ht'
    rw [ho] at ho'
    cases ho'
    refine Or.inr ⟨s.tasks.length, _, ?_, .listener e.message (p := .updateStatus) (by nofun)⟩
    simp [System.resume, Pool.replace, listenerOf]

/-- An attempt that has returned announced its completion just now. -/
theorem announced_of_returned {data : JobPayload} {p : Attempt} {g : Stage} {α : Type} {c : Call α} {r : Except Err α}
    (h : StageStep data g c r (p.stage data)) (ho : p.outcome = some (.ok ())) (hg : ∀ o, g ≠ .returned o) :
    (∃ o, g = .announcing o) ∧ ∃ v, r = .ok v := by
  rcases outcome_eq (d := data) ho with ⟨o, hs, -⟩ | ⟨e, -, he⟩
  · rw [hs] at h
    cases h with
    | announced => exact ⟨⟨_, rfl⟩, _, rfl⟩
  · cases he

/-- A task that owes still does after a step, or leaves one that does, unless it has made its last publish or was silenced. -/
theorem owes_step (h : Stepped cfg s a s') {i : Nat} {t : Task} (ht : s.tasks[i]? = some t) (ho : Owes jobId t) :
    Busy s' jobId ∨ (∃ pick ch st, a = .exec i pick ch ∧ LastWord t jobId st) ∨ ∃ pick e, a = .reject i pick e ∧ Silenced t jobId := by
  obtain ⟨t', ht', hm⟩ := task_forward h ht
  cases ho with
  | adds u f ty o hid =>
    cases hm with
    | waits => exact Or.inl (Or.inr ⟨i, _, ht', .adds u f ty o hid⟩)
    | @createJob _ _ _ _ _ _ aw r pick hn hr he =>
      cases hn
      cases r with
      | error e =>
        rcases hr.of_error with rfl | ⟨ch, -, hx⟩
        · exact Or.inr (Or.inr ⟨pick, e, rfl, hid ▸ .adds u f ty o _⟩)
        · cases hx
      | ok v =>
        obtain ⟨ch, rfl, -⟩ := hr.of_ok
        refine Or.inl (Or.inl ⟨s.world.queue.length, ⟨⟨_, f, ty, u, o⟩, 0, .waiting⟩, ?_, rfl, hid⟩)
        rw [world_of_exec h ht rfl]
        exact List.getElem?_concat_length
  | attempt k hid hp =>
    cases hm with
    | waits => exact Or.inl (Or.inr ⟨i, _, ht', .attempt k hid hp⟩)
    | settled ho ha =>
      subst hid
      rename_i outcome
      cases outcome with
      | ok v => exact absurd ho hp
      | error e => exact Or.inl (settle_listens h ht ha ho)
    | @attempt _ data p p' _ aw r pick hn hr he =>
      by_cases ho : p'.outcome = some (.ok ())
      · subst hid he
        obtain ⟨⟨o, hg⟩, v, rfl⟩ := announced_of_returned ((attempt_stage hn).2 r) ho (fun o hg => by
          have hc := (attempt_stage hn).1
          rw [hg] at hc
          cases hc)
        obtain ⟨ch, rfl, -⟩ := hr.of_ok
        exact Or.inr (Or.inl ⟨pick, ch, _, rfl, .completed k false hg⟩)
      · exact Or.inl (Or.inr ⟨i, _, ht', .attempt k hid ho⟩)
  | @listener m p hp =>
    cases hm with
    | waits => exact Or.inl (Or.inr ⟨i, _, ht', .listener m hp⟩)
    | @failedListener _ _ _ _ aw r pick hn hr he =>
      cases p with
      | done => exact absurd rfl hp
      | updateStatus =>
        cases hn
        cases r with
        | error e =>
          rcases hr.of_error with rfl | ⟨ch, rfl, hx⟩
          · exact Or.inr (Or.inr ⟨pick, e, rfl, .listener jobId m _⟩)
          · obtain ⟨v, hv⟩ := exec_updateStatus (c := .updateStatus jobId .failed { errorMessage := some m }) rfl ch (w := s.world) (fun _ => rfl)
            rw [hv] at hx
            cases hx
        | ok v => exact Or.inl (Or.inr ⟨i, _, ht', he ▸ .listener m (by nofun)⟩)
      | publish =>
        cases hn
        cases r with
        | error e =>
          rcases hr.of_error with rfl | ⟨ch, rfl, hx⟩
          · exact Or.inr (Or.inr ⟨pick, e, rfl, .listener jobId m _⟩)
          · cases hx
        | ok v =>
          obtain ⟨ch, rfl, -⟩ := hr.of_ok
          exact Or.inr (Or.inl ⟨pick, ch, _, rfl, .failed jobId m⟩)

/-- A job that is busy besides the task that acts stays busy. -/
theorem busyBeside_step (h : Stepped cfg s a s') {i : Nat} (hact : a.actor = some i) (hb : BusyBeside s i jobId) : Busy s' jobId := by
  rcases hb with hw | ⟨j, t, hne, ht, ho⟩
  · exact waits_step h hw
  · rcases owes_step h ht ho with hb | ⟨pick, ch, st, rfl, -⟩ | ⟨pick, e, rfl, -⟩
    · exact hb
    · exact absurd (Option.some.inj hact) hne
    · exact absurd (Option.some.inj hact) hne

/-- A busy job stays busy, unless a task makes its last publish of it or is silenced. -/
theorem busy_step (h : Stepped cfg s a s') (hb : Busy s jobId) :
    Busy s' jobId ∨ (∃ (i pick : Nat) (ch : Choice) (t : Task) (st : JobStatus), a = .exec i pick ch ∧ s.tasks[i]? = some t ∧
      LastWord t jobId st) ∨ ∃ (i pick : Nat) (e : Err) (t : Task), a = .reject i pick e ∧ s.tasks[i]? = some t ∧ Silenced t jobId := by
  rcases hb with hw | ⟨i, t, ht, ho⟩
  · exact Or.inl (waits_step h hw)
  · rcases owes_step h ht ho with hb | ⟨pick, ch, st, ha, hl⟩ | ⟨pick, e, ha, hl⟩
    · exact Or.inl hb
    · exact Or.inr (Or.inl ⟨i, pick, ch, t, st, ha, ht, hl⟩)
    · exact Or.inr (Or.inr ⟨i, pick, e, t, ha, ht, hl⟩)

/-! ## Messages and statuses -/

/-- A message that a task publishes is the last it publishes, or tells the progress of an attempt that goes on. -/
theorem publisher {pick : Nat} {t : Task} {aw : Await (Task × List Task)} {m : Message} (hn : t.next cfg pick = some aw)
    (he : aw.call.effect = .publish m) :
    LastWord t m.jobId m.event.status ∨
      ∃ k data p b n, t = .attempt k data p b ∧ p.stage data = .working ∧ m = ⟨data.jobId, .progress n .active⟩ := by
  have hw := writes_of_next hn
  rw [he] at hw
  cases hw with
  | listenerPublish jobId message => exact Or.inl (.failed jobId message)
  | attempt k data p b _ hc =>
    generalize hg : p.stage data = g at hc
    cases hc with
    | publish n => exact Or.inr ⟨k, data, p, b, n, rfl, hg, rfl⟩
    | announce o => exact Or.inl (.completed k b hg)
  | reportPublish r =>
    obtain ⟨j, n, target⟩ := r
    cases hn
    cases target with
    | channel => exact Or.inl (.progress rfl)
    | _ => cases he

/-- A task that makes its last publish publishes what it tells. -/
theorem lastWord_exec {i pick : Nat} {ch : Choice} {t : Task} {st : JobStatus} (h : Stepped cfg s (.exec i pick ch) s')
    (ht : s.tasks[i]? = some t) (hl : LastWord t jobId st) :
    ∃ m : Message, m.jobId = jobId ∧ m.event.status = st ∧ s'.world.published = s.world.published ++ [m] := by
  cases h with
  | @exec _ _ _ t' aw ht' hn =>
    rw [ht] at ht'
    cases ht'
    have said {m : Message} (he : aw.call.effect = .publish m) :
        (aw.call.effect.apply ch s.world).published = s.world.published ++ [m] := by rw [he]; rfl
    cases hl with
    | completed k b hg =>
      obtain ⟨aw, haw, rfl⟩ := Option.map_eq_some_iff.1 hn
      have hc := (attempt_stage haw).1
      rw [hg] at hc
      generalize he : aw.call.effect = e at hc
      cases hc
      exact ⟨_, rfl, rfl, said he⟩
    | failed jobId m =>
      cases hn
      exact ⟨_, rfl, rfl, said rfl⟩
    | @progress r hr =>
      obtain ⟨j, n, target⟩ := r
      cases hr
      cases hn
      exact ⟨_, rfl, rfl, said rfl⟩

/-- The messages after a step: those before, and the one a task has published, after which the job is busy unless it was the
task's last. -/
theorem published_step (hr : (platform cfg).Reach ok s) (h : Stepped cfg s a s') :
    s'.world.published = s.world.published ∨ ∃ (i pick : Nat) (ch : Choice) (t : Task) (m : Message), a = .exec i pick ch ∧
      s.tasks[i]? = some t ∧ s'.world.published = s.world.published ++ [m] ∧
      (LastWord t m.jobId m.event.status ∨ Busy s' m.jobId) := by
  cases h with
  | @exec i pick ch t aw ht hn =>
    rcases published_apply ch s.world aw.call.effect with hp | ⟨m, he, hp⟩
    · exact Or.inl hp
    refine Or.inr ⟨i, pick, ch, t, m, rfl, ht, hp, ?_⟩
    rcases publisher hn he with hl | ⟨k, data, p, b, n, rfl, hg, rfl⟩
    · exact Or.inl hl
    · have hw : Wrote s (.exec i pick ch) i _ ch _ := ⟨⟨pick, rfl⟩, ht, cfg, pick, aw, hn, he⟩
      obtain ⟨rfl, -⟩ := unsettled_of_wrote hr hw (by nofun)
      have ho : Owes data.jobId (.attempt k data p false) := by
        refine .attempt k rfl (fun ho => ?_)
        rcases outcome_eq (d := data) ho with ⟨o, hs, -⟩ | ⟨e, hs, -⟩ <;> rw [hg] at hs <;> cases hs
      rcases owes_step (.exec ht hn) ht ho with hb | ⟨_, _, _, -, hl⟩ | ⟨_, _, ha, -⟩
      · exact Or.inr hb
      · cases hl with
        | completed _ _ hg' =>
          rw [hg] at hg'
          cases hg'
      · cases ha
  | _ => exact Or.inl rfl

/-- A job whose status a task has just set is busy: the task has still to announce it. -/
theorem busy_of_status (hr : (platform cfg).Reach ok s) (h : Stepped cfg s a s') {i : Nat} {t : Task} {ch : Choice} {st : JobStatus}
    {ex : JobExtra} (hw : Wrote s a i t ch (.updateStatus jobId st ex)) : Busy s' jobId := by
  obtain ⟨pick, rfl⟩ := hw.action
  have still (ho : Owes jobId t) (hl : ∀ st, ¬ LastWord t jobId st) : Busy s' jobId := by
    rcases owes_step h hw.task ho with hb | ⟨_, _, st, -, hl'⟩ | ⟨_, _, ha, -⟩
    · exact hb
    · exact absurd hl' (hl st)
    · cases ha
  rcases status_writer hr hw with ⟨k, data, p, rfl, rfl, hst⟩ | ⟨m, rfl, -⟩
  · refine still (.attempt k rfl (fun ho => ?_)) (fun st hl => ?_)
    · rcases outcome_eq (d := data) ho with ⟨o, hs, -⟩ | ⟨e, -, he⟩
      · rw [hs] at hst
        rcases hst with ⟨hst, -⟩ | ⟨o, hst, -⟩ <;> cases hst
      · cases he
    · cases hl with
      | completed _ _ hg =>
        rw [hg] at hst
        rcases hst with ⟨hst, -⟩ | ⟨o, hst, -⟩ <;> cases hst
  · exact still (.listener m (by nofun)) (fun st hl => nomatch hl)

/-- A row after a step has the status it had, or its job is busy, or it has just been cancelled. -/
theorem status_step (hr : (platform cfg).Reach ok s) (h : Stepped cfg s a s') {row' : JobRow} (hrow : row' ∈ s'.world.db.jobs) :
    Busy s' row'.id ∨ (∃ row ∈ s.world.db.jobs, row.id = row'.id ∧ row.status = row'.status) ∨
      ∃ i pick ch, ∃ row ∈ s.world.db.jobs, a = .exec i pick ch ∧ s.tasks[i]? = some (.cancelJob row.userId row.id .cancel) ∧
        row.id = row'.id ∧ row.status = .pending ∧ row'.status = .failed := by
  rcases jobs_step h hrow with hrow | ⟨i, t, ch, e, hw, ⟨row, hrow₀, hf⟩ | ⟨data, rfl, rfl, hn, hi, -⟩⟩
  · exact Or.inr (Or.inl ⟨row', hrow, rfl, rfl⟩)
  · cases hf with
    | same | cleared | progress => exact Or.inr (Or.inl ⟨_, hrow₀, rfl, rfl⟩)
    | status st ex => exact Or.inl (busy_of_status hr h hw)
    | cancelled _ hp =>
      obtain rfl := job_canceller hw
      obtain ⟨pick, ha⟩ := hw.action
      exact Or.inr (Or.inr ⟨i, pick, ch, _, hrow₀, ha, hw.task, rfl, hp, rfl⟩)
  · obtain ⟨pick, ha⟩ := hw.action
    obtain ⟨u, f, ty, o, rfl, rfl⟩ := job_creator hw
    obtain ⟨row, ht, hid⟩ := created_adds h ha hw.task hn hi
    exact Or.inl (Or.inr ⟨i, _, ht, .adds u f ty o hid⟩)

end FileProcessing
