import FileProcessing.Lemmas.Locks

/-!
# Attempts in turn

BullMQ grants a job `attempts` attempts, one after the other, while nothing takes the lock of its entry: the entry counts the attempts,
each but the last one threw, a job is finished by an attempt that returned and given up when the last one threw. So its completion is
announced once at most, and its failure once an attempt at most.
-/

namespace FileProcessing

variable {cfg : Config} {ok : System → Action → Prop} {s s' : System} {a : Action} {k : Nat} {job : BullJob}

/-- The task is an attempt of the entry. -/
def Task.attemptOf (k : Nat) : Task → Bool
  | .attempt l _ _ _ => l = k
  | _ => false

/-- The task is the listener of a failed attempt of the job. -/
def Task.listens (jobId : Uuid) : Task → Bool
  | .failedListener j _ _ => j = jobId
  | _ => false

/-- The task is a listener of the job that has published or given up. -/
def Task.listened (jobId : Uuid) : Task → Bool
  | .failedListener j _ p => j = jobId && p = .done
  | _ => false

/-- The message announces the completion of the job. -/
def Message.completes (jobId : Uuid) (m : Message) : Bool :=
  m.jobId = jobId && match m.event with
    | .completed _ => true
    | _ => false

/-- The message announces that an attempt of the job failed. -/
def Message.fails (jobId : Uuid) (m : Message) : Bool :=
  m.jobId = jobId && match m.event with
    | .failed _ => true
    | _ => false

/-- The attempts BullMQ has granted. -/
def BullJob.granted (job : BullJob) : Nat :=
  match job.state with
  | .active _ => job.attemptsMade + 1
  | _ => job.attemptsMade

/-- The attempts that failed. -/
def BullJob.failures (job : BullJob) : Nat :=
  match job.state with
  | .completed => job.attemptsMade - 1
  | _ => job.attemptsMade

/-- The attempt is over and threw. -/
def GaveUp (p : Attempt) (settled : Bool) : Prop := settled = true ∧ ∃ e, p.outcome = some (.error e)

/-- The attempts of an entry, one after the other. -/
structure AttemptsInTurn (s : System) (k : Nat) (job : BullJob) : Prop where
  granted : s.tasks.countP (Task.attemptOf k) = job.granted ∧ job.granted ≤ attempts
  running : ∀ (i : Nat) data p, s.tasks[i]? = some (.attempt k data p false) → job.state = .active i
  before : ∀ (i j : Nat) data p b data' p' b', i < j → s.tasks[i]? = some (.attempt k data p b) →
    s.tasks[j]? = some (.attempt k data' p' b') → GaveUp p b
  completed : job.state = .completed ↔ ∃ (i : Nat) (data : _) (p : _), s.tasks[i]? = some (.attempt k data p true) ∧ p.outcome = some (.ok ())
  gaveUp : job.state = .failed ↔ job.attemptsMade = attempts ∧
    ∀ (i : Nat) data p b, s.tasks[i]? = some (.attempt k data p b) → GaveUp p b
  announced : s.world.published.countP (Message.completes job.payload.jobId) ≤ 1 ∧
    (job.state = .completed → s.world.published.countP (Message.completes job.payload.jobId) = 1)
  failures : s.world.published.countP (Message.fails job.payload.jobId) ≤ job.failures

/-- Every job whose lock is never taken has its attempts in turn. -/
def RetriesInTurn (cfg : Config) : Prop :=
  ∀ k s job, (platform cfg).Reach (fun _ a => a ≠ .stall k) s → s.world.queue[k]? = some job → AttemptsInTurn s k job

/-! ## The pool is counted -/

/-- The task is an attempt or a listener. -/
def Task.isAttemptOrListener : Task → Bool
  | .attempt _ _ _ _ | .failedListener _ _ _ => true
  | _ => false

/-- What a task leaves behind are reports. -/
theorem report_of_left {pick : Nat} {t : Task} {aw : Await (Task × List Task)} (hn : t.next cfg pick = some aw) {r : Except Err aw.α}
    {x : Task} (hx : x ∈ (aw.resume r).2) : x.isAttemptOrListener = false := by
  cases t with
  | attempt l data p b =>
    obtain ⟨aw, -, rfl⟩ := Option.map_eq_some_iff.1 hn
    obtain ⟨report, -, rfl⟩ := List.mem_map.1 hx
    rfl
  | report y done =>
    cases done <;> cases hn
    cases hx
  | _ =>
    obtain ⟨aw, -, rfl⟩ := Option.map_eq_some_iff.1 hn
    cases hx

/-- The tasks a step adds: the attempt of a delivery, the listener of an attempt that threw, or tasks of the other kinds. -/
inductive NewTasks (s : System) : Action → List Task → Prop where
  | others {a : Action} {new : List Task} (hdeliver : ∀ k, a ≠ .deliver k)
      (hsettle : ∀ (i k : Nat) data p e, a = .settle i → s.tasks[i]? = some (.attempt k data p false) → p.outcome ≠ some (.error e))
      (hnew : ∀ x ∈ new, x.isAttemptOrListener = false) : NewTasks s a new
  | attempt {k : Nat} {job : BullJob} (hk : s.world.queue[k]? = some job) (hw : job.state = .waiting) :
      NewTasks s (.deliver k) [.attempt k job.payload (Attempt.start job.payload) false]
  | listener {i k : Nat} {data : JobPayload} {p : Attempt} {e : Err} (ht : s.tasks[i]? = some (.attempt k data p false))
      (ho : p.outcome = some (.error e)) : NewTasks s (.settle i) [.failedListener data.jobId e.message .updateStatus]

theorem newTasks_none (hdeliver : ∀ k, a ≠ .deliver k) (hsettle : ∀ i, a ≠ .settle i) : NewTasks s a [] :=
  .others hdeliver (fun i _ _ _ _ h => absurd h (hsettle i)) (fun _ hx => (nomatch hx))

theorem spawn_counted (p : Task → Bool) (s : System) (t : Task) : (s.spawn t).tasks.countP p = s.tasks.countP p + [t].countP p :=
  List.countP_append

/-- A count of tasks after a step: the tasks that move keep it, and the new ones add to it. -/
theorem pool_counted (h : Stepped cfg s a s') : ∃ new, NewTasks s a new ∧
    ∀ p : Task → Bool, (∀ i t t', TaskMoves cfg s a i t t' → p t' = p t) → (∀ x, x.isAttemptOrListener = false → p x = false) →
      s'.tasks.countP p = s.tasks.countP p + new.countP p := by
  cases h with
  | request r random =>
    refine ⟨[r.task cfg random], .others nofun (fun _ _ _ _ _ h => (nomatch h)) (fun x hx => ?_), fun p _ _ => ?_⟩
    · obtain rfl := List.mem_singleton.1 hx
      cases r <;> rfl
    · exact spawn_counted p _ _
  | startSweep kind =>
    refine ⟨[.sweep kind .cutoff], .others nofun (fun _ _ _ _ _ h => (nomatch h)) (fun x hx => ?_), fun p _ _ => spawn_counted p _ _⟩
    obtain rfl := List.mem_singleton.1 hx
    rfl
  | upload | stall | guestSession | register | tick =>
    exact ⟨[], newTasks_none nofun nofun, fun p _ _ => (Nat.add_zero _).symm⟩
  | @exec i pick ch t aw ht hn =>
    refine ⟨[], newTasks_none nofun nofun, fun p hmove hrest => ?_⟩
    have hleft (x : Task) (hx : x ∈ (aw.resume (aw.call.exec ch s.world).1).2) : p x = false := hrest x (report_of_left hn hx)
    exact Pool.countP_replace_of_eq p ht (hmove i _ _ (next_moves hn (.exec ch aw.call)).1) hleft
  | @reject i pick e t aw ht hn hf =>
    refine ⟨[], newTasks_none nofun nofun, fun p hmove hrest => ?_⟩
    have hleft (x : Task) (hx : x ∈ (aw.resume (.error e)).2) : p x = false := hrest x (report_of_left hn hx)
    exact Pool.countP_replace_of_eq p ht (hmove i _ _ (next_moves hn (.reject e aw.call hf)).1) hleft
  | @settle i k data p outcome ht ho =>
    have hcount (q : Task → Bool) (hmove : ∀ j t t', TaskMoves cfg s (.settle i) j t t' → q t' = q t) :
        (Pool.replace s.tasks i (.attempt k data p true) (listenerOf data outcome)).countP q =
          s.tasks.countP q + (listenerOf data outcome).countP q := by
      have hc := Pool.countP_replace q (.attempt k data p true) (listenerOf data outcome) ht
      rw [hmove i _ _ (.settled ho rfl)] at hc
      omega
    refine ⟨listenerOf data outcome, ?_, fun q hmove _ => hcount q hmove⟩
    cases outcome with
    | ok v =>
      refine .others nofun (fun j l d q e hj ht' he => ?_) (fun _ hx => (nomatch hx))
      cases hj
      cases ht.symm.trans ht'
      cases ho.symm.trans he
    | error e => exact .listener ht ho
  | deliver hk hw => exact ⟨_, .attempt hk hw, fun p _ _ => spawn_counted p _ _⟩

/-- A task stays an attempt of its entry, and a listener of its job. -/
theorem TaskMoves.attemptOf {i : Nat} {t t' : Task} (h : TaskMoves cfg s a i t t') (k : Nat) : t'.attemptOf k = t.attemptOf k := by
  cases h <;> rfl

theorem TaskMoves.listens {i : Nat} {t t' : Task} (h : TaskMoves cfg s a i t t') (jobId : Uuid) : t'.listens jobId = t.listens jobId := by
  cases h <;> rfl

theorem attemptOf_other {k : Nat} {x : Task} (h : x.isAttemptOrListener = false) : x.attemptOf k = false := by
  cases x <;> first | rfl | cases h

theorem listens_other {jobId : Uuid} {x : Task} (h : x.isAttemptOrListener = false) : x.listens jobId = false := by
  cases x <;> first | rfl | cases h

theorem countP_zero {p : Task → Bool} {l : List Task} (h : ∀ x ∈ l, p x = false) : l.countP p = 0 :=
  List.countP_eq_zero.2 (fun x hx hp => Bool.false_ne_true ((h x hx).symm.trans hp))

/-- A delivery adds an attempt of its entry, and no other step does. -/
theorem attempts_counted (h : Stepped cfg s a s') (k : Nat) :
    s'.tasks.countP (Task.attemptOf k) = s.tasks.countP (Task.attemptOf k) + if a = .deliver k then 1 else 0 := by
  obtain ⟨new, hnew, hcount⟩ := pool_counted h
  rw [hcount _ (fun i t t' hm => hm.attemptOf k) (fun x hx => attemptOf_other hx)]
  congr 1
  cases hnew with
  | others hdeliver _ hnew =>
    rw [if_neg (hdeliver k)]
    exact countP_zero (fun x hx => attemptOf_other (hnew x hx))
  | @attempt l job hk hw =>
    simp only [List.countP_singleton, Task.attemptOf, decide_eq_true_eq, Action.deliver.injEq]
  | listener => rfl

/-- The listener of an attempt is added when BullMQ settles an attempt of the job that threw. -/
theorem listeners_counted (h : Stepped cfg s a s') (jobId : Uuid) :
    (s'.tasks.countP (Task.listens jobId) = s.tasks.countP (Task.listens jobId) ∧
      ∀ (i k : Nat) data p e, a = .settle i → s.tasks[i]? = some (.attempt k data p false) → p.outcome = some (.error e) →
        data.jobId ≠ jobId) ∨
    s'.tasks.countP (Task.listens jobId) = s.tasks.countP (Task.listens jobId) + 1 ∧
      ∃ (i k : Nat) (data : _) (p : _) (e : _), a = .settle i ∧ s.tasks[i]? = some (.attempt k data p false) ∧
        p.outcome = some (.error e) ∧ data.jobId = jobId := by
  obtain ⟨new, hnew, hcount⟩ := pool_counted h
  rw [hcount _ (fun i t t' hm => hm.listens jobId) (fun x hx => listens_other hx)]
  cases hnew with
  | others _ hsettle hnew =>
    refine Or.inl ⟨?_, fun i k data p e ha ht ho => absurd ho (hsettle i k data p e ha ht)⟩
    rw [countP_zero (fun x hx => listens_other (hnew x hx)), Nat.add_zero]
  | attempt => exact Or.inl ⟨rfl, fun _ _ _ _ _ ha => (nomatch ha)⟩
  | @listener i k data p e ht ho =>
    by_cases hid : data.jobId = jobId
    · refine Or.inr ⟨?_, i, k, data, p, e, rfl, ht, ho, hid⟩
      simp [Task.listens, hid]
    · refine Or.inl ⟨?_, fun j l data' p' e' ha ht' _ => ?_⟩
      · simp [Task.listens, hid]
      · cases ha
        cases ht.symm.trans ht'
        exact hid

/-- A listener is one of a job that is queued. -/
def ListenersQueued (s : System) : Prop :=
  ∀ (i : Nat) j m p, s.tasks[i]? = some (.failedListener j m p) → ∃ (k : Nat) (job : BullJob), s.world.queue[k]? = some job ∧ job.payload.jobId = j

theorem listenersQueued (h : (platform cfg).Reach ok s) : ListenersQueued s := by
  refine h.invariant ?_ (fun s a s' hr hI _ hs i j m p hi => ?_)
  · rintro s rfl i j m p hi
    cases hi
  have hst := step_cases hs
  have hkept {k : Nat} {job : BullJob} (hk : s.world.queue[k]? = some job) :
      ∃ (k : Nat) (job' : BullJob), s'.world.queue[k]? = some job' ∧ job'.payload.jobId = job.payload.jobId := by
    obtain ⟨job', hk', hm⟩ := entry_forward hst hk
    exact ⟨k, job', hk', by rw [hm.payload]⟩
  rcases task_back hst hi with ⟨t, ht, hm⟩ | ⟨-, hsp⟩
  · have hold {p} (ht : s.tasks[i]? = some (.failedListener j m p)) :
        ∃ (k : Nat) (job : BullJob), s'.world.queue[k]? = some job ∧ job.payload.jobId = j := by
      obtain ⟨k, job, hk, rfl⟩ := hI i j m p ht
      exact hkept hk
    cases hm with
    | waits | failedListener => exact hold ht
  · cases hsp with
    | failedListener _ ht _ hj =>
      obtain ⟨job, hk, rfl⟩ := (locked hr).entry ht
      exact hj ▸ hkept hk

/-! ## What holds of the attempts of an entry -/

/-- The attempts of an entry, and how they relate to what BullMQ counts. -/
structure Turn (s : System) (k : Nat) (job : BullJob) : Prop where
  granted : s.tasks.countP (Task.attemptOf k) = job.granted
  listeners : s.tasks.countP (Task.listens job.payload.jobId) = job.failures
  limit : (job.state = .completed → 1 ≤ job.attemptsMade ∧ job.attemptsMade ≤ attempts) ∧
    (job.state = .failed → job.attemptsMade = attempts)
  running : ∀ (i : Nat) data p, s.tasks[i]? = some (.attempt k data p false) → job.state = .active i
  before : ∀ (i j : Nat) data p b data' p' b', i < j → s.tasks[i]? = some (.attempt k data p b) →
    s.tasks[j]? = some (.attempt k data' p' b') → GaveUp p b
  returned : ∀ (i : Nat) data p, s.tasks[i]? = some (.attempt k data p true) → p.outcome = some (.ok ()) → job.state = .completed
  completed : job.state = .completed → ∃ (i : Nat) (data : _) (p : _), s.tasks[i]? = some (.attempt k data p true) ∧
    p.outcome = some (.ok ())

/-- What an attempt of the entry was before a step in which it is not settled. -/
theorem attempt_back (hr : (platform cfg).Reach ok s) (h : Stepped cfg s a s') {i : Nat} {data : JobPayload} {p : Attempt} {b : Bool}
    (hi : s'.tasks[i]? = some (.attempt k data p b)) :
    (∃ p₀, s.tasks[i]? = some (.attempt k data p₀ b) ∧ (b = true → p = p₀)) ∨
      (s.tasks[i]? = some (.attempt k data p false) ∧ b = true ∧ a = .settle i) ∨
      s.tasks.length ≤ i ∧ b = false ∧ p = Attempt.start data ∧ a = .deliver k := by
  rcases task_back h hi with ⟨t, ht, hm⟩ | ⟨hle, hsp⟩
  · cases hm with
    | waits => exact Or.inl ⟨p, ht, fun _ => rfl⟩
    | @attempt _ _ p₀ _ _ aw r pick hn =>
      refine Or.inl ⟨p₀, ht, fun hb => ?_⟩
      subst hb
      obtain ⟨o, ho⟩ := settledEnded hr _ _ _ _ ht
      rw [next_of_outcome _ ho] at hn
      cases hn
    | settled _ ha => exact Or.inr (Or.inl ⟨ht, rfl, ha⟩)
  · cases hsp with
    | attempt ha _ _ _ hp => exact Or.inr (Or.inr ⟨hle, rfl, hp, ha⟩)

/-- An entry that a delivery leaves as it was is another one. -/
theorem EntryMoves.not_delivered {job : BullJob} (h : Stepped cfg s a s') (hk : s.world.queue[k]? = some job)
    (hk' : s'.world.queue[k]? = some job) : a ≠ .deliver k := by
  rintro rfl
  obtain ⟨job', hget, hact⟩ := deliver_locks h
  cases hk'.symm.trans hget
  cases h with
  | deliver hk₀ hw =>
    cases hk.symm.trans hk₀
    cases hw.symm.trans hact

/-- An attempt keeps its outcome, and BullMQ does not take back that it settled it. -/
theorem gaveUp_forward (hr : (platform cfg).Reach ok s) (h : Stepped cfg s a s') {i : Nat} {data data' : JobPayload} {p p' : Attempt}
    {b b' : Bool} (hi : s.tasks[i]? = some (.attempt k data p b)) (hi' : s'.tasks[i]? = some (.attempt k data' p' b'))
    (hg : GaveUp p b) : GaveUp p' b' := by
  obtain ⟨rfl, e, ho⟩ := hg
  have hlt := (List.getElem?_eq_some_iff.1 hi).1
  rcases attempt_back hr h hi' with ⟨p₀, ht, hp⟩ | ⟨ht, -, -⟩ | ⟨hle, -⟩
  · cases hi.symm.trans ht
    exact hp rfl ▸ ⟨rfl, e, ho⟩
  · cases hi.symm.trans ht
  · omega

section Turn

variable {job' : BullJob}

/-- The count of the attempts of an entry. -/
theorem granted_step (h : Stepped cfg s a s') (hk : s.world.queue[k]? = some job) (hk' : s'.world.queue[k]? = some job')
    (hm : EntryMoves s a k job job') (hstall : a ≠ .stall k) (hI : Turn s k job) :
    s'.tasks.countP (Task.attemptOf k) = job'.granted := by
  rw [attempts_counted h, hI.granted]
  cases hm with
  | stays => rw [if_neg (EntryMoves.not_delivered h hk hk'), Nat.add_zero]
  | delivered ha hw =>
    rw [if_pos ha]
    simp only [BullJob.granted, hw]
  | stalled ha => exact absurd ha hstall
  | finished ha _ _ hl | retries ha _ _ hl | gaveUp ha _ _ hl =>
    rw [ha, if_neg nofun]
    simp only [BullJob.granted, hl, Nat.add_zero]

/-- The count of its listeners. -/
theorem listeners_step (hr : (platform cfg).Reach ok s) (h : Stepped cfg s a s') (hk : s.world.queue[k]? = some job)
    (hm : EntryMoves s a k job job') (hstall : a ≠ .stall k) (hI : Turn s k job) :
    s'.tasks.countP (Task.listens job'.payload.jobId) = job'.failures := by
  rw [hm.payload]
  rcases listeners_counted h job.payload.jobId with ⟨hsame, hnone⟩ | ⟨hone, i, l, data, p, e, ha, ht, ho, hid⟩
  · rw [hsame, hI.listeners]
    cases hm with
    | stays => rfl
    | delivered ha hw => simp only [BullJob.failures, hw]
    | stalled ha => exact absurd ha hstall
    | finished ha _ _ hl => simp only [BullJob.failures, hl, Nat.add_sub_cancel]
    | retries ha ht ho | gaveUp ha ht ho =>
      obtain ⟨job₀, hk₀, hd⟩ := (locked hr).entry ht
      cases hk.symm.trans hk₀
      exact absurd (congrArg JobPayload.jobId hd.symm) (hnone _ _ _ _ _ ha ht ho)
  · obtain ⟨job₀, hk₀, hd⟩ := (locked hr).entry ht
    obtain rfl : l = k := (oneEntry hr).entries hk₀ hk (by rw [hd, hid])
    rw [hone, hI.listeners]
    have hact := hI.running i data p ht
    cases hm with
    | stays hne => exact absurd hact (hne ha ht)
    | delivered hd | stalled hd => rw [ha] at hd; cases hd
    | finished ha' ht' ho' =>
      cases ha.symm.trans ha'
      cases ht.symm.trans ht'
      cases ho.symm.trans ho'
    | retries _ _ _ hl | gaveUp _ _ _ hl => simp only [BullJob.failures, hl]

/-- The counters of a job that is over. -/
theorem limit_step (hr : (platform cfg).Reach ok s) (hk : s.world.queue[k]? = some job) (hm : EntryMoves s a k job job')
    (hI : Turn s k job) : (job'.state = .completed → 1 ≤ job'.attemptsMade ∧ job'.attemptsMade ≤ attempts) ∧
      (job'.state = .failed → job'.attemptsMade = attempts) := by
  have hleft := attemptsLeft hr k job hk
  cases hm with
  | stays => exact hI.limit
  | delivered | stalled | retries => exact ⟨nofun, nofun⟩
  | finished _ _ _ hl =>
    have := hleft (Or.inr ⟨_, hl⟩)
    exact ⟨fun _ => ⟨Nat.succ_pos _, this⟩, nofun⟩
  | gaveUp _ _ _ hl hmade =>
    have := hleft (Or.inr ⟨_, hl⟩)
    exact ⟨nofun, fun _ => Nat.le_antisymm this hmade⟩

/-- The attempt that runs holds the lock. -/
theorem running_step (hr : (platform cfg).Reach ok s) (h : Stepped cfg s a s')
    (hk' : s'.world.queue[k]? = some job') (hm : EntryMoves s a k job job') (hstall : a ≠ .stall k) (hI : Turn s k job)
    {i : Nat} {data : JobPayload} {p : Attempt} (hi : s'.tasks[i]? = some (.attempt k data p false)) : job'.state = .active i := by
  rcases attempt_back hr h hi with ⟨p₀, ht, -⟩ | ⟨-, hb, -⟩ | ⟨hle, -, -, rfl⟩
  · have hact := hI.running i data p₀ ht
    have hne : a ≠ .settle i := by
      rintro rfl
      obtain ⟨t', ht', hmt⟩ := task_forward h ht
      cases hi.symm.trans ht'
      cases hmt with
      | waits _ hw => exact hw rfl
      | attempt _ hs => cases hs
    cases hm with
    | stays => exact hact
    | delivered _ hw => cases hact.symm.trans hw
    | stalled ha => exact absurd ha hstall
    | finished ha _ _ hl | retries ha _ _ hl | gaveUp ha _ _ hl =>
      cases hact.symm.trans hl
      exact absurd ha hne
  · cases hb
  · obtain ⟨job₁, hk₁, hact⟩ := deliver_locks h
    cases hk'.symm.trans hk₁
    have hlt := (List.getElem?_eq_some_iff.1 hi).1
    cases h with
    | deliver =>
      simp only [System.spawn, List.length_append, List.length_singleton] at hlt
      rw [hact]
      congr 1
      omega

/-- Every attempt but the last threw. -/
theorem before_step (hr : (platform cfg).Reach ok s) (h : Stepped cfg s a s') (hk : s.world.queue[k]? = some job) (hI : Turn s k job)
    {i j : Nat} {data data' : JobPayload} {p p' : Attempt} {b b' : Bool} (hij : i < j) (hi : s'.tasks[i]? = some (.attempt k data p b))
    (hj : s'.tasks[j]? = some (.attempt k data' p' b')) : GaveUp p b := by
  have hold {j : Nat} {p' : Attempt} {b' : Bool} (hij : i < j) (ht : s.tasks[j]? = some (.attempt k data' p' b')) : GaveUp p b := by
    rcases attempt_back hr h hi with ⟨p₀, ht₀, -⟩ | ⟨ht₀, -, -⟩ | ⟨hle, -⟩
    · exact gaveUp_forward hr h ht₀ hi (hI.before i j _ _ _ _ _ _ hij ht₀ ht)
    · exact gaveUp_forward hr h ht₀ hi (hI.before i j _ _ _ _ _ _ hij ht₀ ht)
    · have := (List.getElem?_eq_some_iff.1 ht).1
      omega
  rcases attempt_back hr h hj with ⟨p₀, ht, -⟩ | ⟨ht, -, -⟩ | ⟨hle, -, -, rfl⟩
  · exact hold hij ht
  · exact hold hij ht
  -- the attempt at `j` has just been delivered, so the job waited and none of its attempts was left running
  have hw : job.state = .waiting := by
    cases h with
    | deliver hk₀ hw =>
      cases hk.symm.trans hk₀
      exact hw
  have hlt : i < s.tasks.length := by
    have hlen := (List.getElem?_eq_some_iff.1 hj).1
    cases h with
    | deliver =>
      simp only [System.spawn, List.length_append, List.length_singleton] at hlen
      omega
  rcases attempt_back hr h hi with ⟨p₀, ht₀, -⟩ | ⟨-, -, ha⟩ | ⟨hle', -⟩
  · refine gaveUp_forward hr h ht₀ hi ?_
    cases b with
    | false => cases hw.symm.trans (hI.running i data p₀ ht₀)
    | true =>
      obtain ⟨o, ho⟩ := settledEnded hr _ _ _ _ ht₀
      cases o with
      | ok v => cases hw.symm.trans (hI.returned i data p₀ ht₀ ho)
      | error e => exact ⟨rfl, e, ho⟩
  · cases ha
  · omega

/-- A job is finished by an attempt that returned. -/
theorem returned_step (hr : (platform cfg).Reach ok s) (h : Stepped cfg s a s') (hm : EntryMoves s a k job job') (hI : Turn s k job)
    {i : Nat} {data : JobPayload} {p : Attempt} (hi : s'.tasks[i]? = some (.attempt k data p true)) (ho : p.outcome = some (.ok ())) :
    job'.state = .completed := by
  rcases attempt_back hr h hi with ⟨p₀, ht, hp⟩ | ⟨ht, -, rfl⟩ | ⟨-, hb, -⟩
  · obtain rfl := hp rfl
    have hc := hI.returned i data p ht ho
    cases hm with
    | stays => exact hc
    | delivered _ hs | stalled _ hs | finished _ _ _ hs | retries _ _ _ hs | gaveUp _ _ _ hs => cases hc.symm.trans hs
  · have hact := hI.running i data p ht
    cases hm with
    | stays hne => exact absurd hact (hne rfl ht)
    | delivered ha | stalled ha => cases ha
    | finished => rfl
    | retries ha ht' ho' | gaveUp ha ht' ho' =>
      cases ha
      cases ht.symm.trans ht'
      cases ho.symm.trans ho'
  · cases hb

theorem finished_step (h : Stepped cfg s a s') (hm : EntryMoves s a k job job') (hI : Turn s k job)
    (hc : job'.state = .completed) :
    ∃ (i : Nat) (data : _) (p : _), s'.tasks[i]? = some (.attempt k data p true) ∧ p.outcome = some (.ok ()) := by
  cases hm with
  | stays =>
    obtain ⟨i, data, p, ht, ho⟩ := hI.completed hc
    obtain ⟨t', ht', hmt⟩ := task_forward h ht
    cases hmt with
    | waits => exact ⟨i, data, p, ht', ho⟩
    | attempt hn =>
      rw [next_of_outcome _ ho] at hn
      cases hn
  | delivered | stalled | retries | gaveUp => cases hc
  | finished ha ht ho =>
    obtain ⟨t', ht', hmt⟩ := task_forward h ht
    cases hmt with
    | waits _ hw => exact absurd (congrArg Action.actor ha) hw
    | attempt hn =>
      rw [next_of_outcome _ ho] at hn
      cases hn
    | settled => exact ⟨_, _, _, ht', ho⟩

end Turn

/-- No attempt is one of an entry that is new. -/
theorem attempt_new (hr : (platform cfg).Reach ok s) (h : Stepped cfg s a s') (ha : a ≠ .deliver s.world.queue.length) (j : Nat)
    (data : JobPayload) (p : Attempt) (b : Bool) : s'.tasks[j]? ≠ some (.attempt s.world.queue.length data p b) := by
  intro hj
  have hold {p : Attempt} {b : Bool} (hj : s.tasks[j]? = some (.attempt s.world.queue.length data p b)) : False := by
    obtain ⟨job, hk, -⟩ := (locked hr).entry hj
    exact absurd (List.getElem?_eq_some_iff.1 hk).1 (Nat.lt_irrefl _)
  rcases attempt_back hr h hj with ⟨p₀, hj₀, -⟩ | ⟨hj₀, -⟩ | ⟨-, -, -, hd⟩
  · exact hold hj₀
  · exact hold hj₀
  · exact ha hd

/-- A step that does not take the lock of an entry keeps its attempts in turn. -/
theorem turn_step (hr : (platform cfg).Reach ok s) (h : Stepped cfg s a s') (hstall : a ≠ .stall k)
    (hI : ∀ job, s.world.queue[k]? = some job → Turn s k job) : ∀ job', s'.world.queue[k]? = some job' → Turn s' k job' := by
  intro job' hk'
  rcases entry_back h hk' with ⟨job, hk, hm⟩ | ⟨i, u, f, ty, o, row, ch, rfl, ⟨pick, rfl⟩, ht, rfl⟩
  · have hI := hI job hk
    exact
      { granted := granted_step h hk hk' hm hstall hI
        listeners := listeners_step hr h hk hm hstall hI
        limit := limit_step hr hk hm hI
        running := fun i data p => running_step hr h hk' hm hstall hI
        before := fun i j data p b data' p' b' => before_step hr h hk hI
        returned := fun i data p => returned_step hr h hm hI
        completed := finished_step h hm hI }
  -- the entry is new, so no attempt and no listener of it is there
  refine
    { granted := ?_
      listeners := ?_
      limit := ⟨nofun, nofun⟩
      running := fun j data p hj => absurd hj (attempt_new hr h nofun j data p false)
      before := fun j l data p b data' p' b' _ hj => absurd hj (attempt_new hr h nofun j data p b)
      returned := fun j data p hj => absurd hj (attempt_new hr h nofun j data p true)
      completed := nofun }
  · refine countP_zero (fun x hx => ?_)
    obtain ⟨j, hj⟩ := List.getElem?_of_mem hx
    cases x with
    | attempt l data p b =>
      refine decide_eq_false (fun hl => ?_)
      exact attempt_new hr h nofun j data p b (hl ▸ hj)
    | _ => rfl
  · have hsame : s'.tasks.countP (Task.listens row.id) = s.tasks.countP (Task.listens row.id) := by
      rcases listeners_counted h row.id with ⟨hsame, -⟩ | ⟨-, _, _, _, _, _, ha, -⟩
      · exact hsame
      · cases ha
    refine hsame.trans (countP_zero (fun x hx => ?_))
    obtain ⟨j, hj⟩ := List.getElem?_of_mem hx
    cases x with
    | failedListener jobId m p =>
      refine decide_eq_false (fun hid => ?_)
      obtain ⟨l, job, hk, hj'⟩ := listenersQueued hr j jobId m p hj
      exact (oneEntry hr).fresh ht hk (hj'.trans hid)
    | _ => rfl

theorem turn (h : (platform cfg).Reach (fun _ a => a ≠ .stall k) s) : ∀ job, s.world.queue[k]? = some job → Turn s k job := by
  refine h.invariant ?_ (fun s a s' hr hI hok hs => turn_step hr (step_cases hs) hok hI)
  rintro s rfl job hk
  cases hk

/-! ## What is announced of a job -/

/-- An attempt that returns has just announced the completion of its job. -/
theorem announces (h : Stepped cfg s a s') {i l pick : Nat} {data : JobPayload} {p : Attempt} {b : Bool} {aw : Await (Attempt × List Report)}
    {r : Except Err aw.α} (ht : s.tasks[i]? = some (.attempt l data p b)) (hn : p.next data pick = some aw)
    (hs : Settles s i pick a aw.call r) (ho : (aw.resume r).1.outcome = some (.ok ())) :
    ∃ m : Message, m.completes data.jobId = true ∧ s'.world.published = s.world.published ++ [m] := by
  obtain ⟨hcall, hstep⟩ := attempt_stage hn
  have hstep := hstep r
  have hret : ∃ o, (aw.resume r).1.stage data = .returned o := by
    rcases outcome_eq (d := data) ho with ⟨o, hst, -⟩ | ⟨e, -, ho'⟩
    · exact ⟨o, hst⟩
    · cases ho'
  obtain ⟨o, hst⟩ := hret
  rw [hst] at hstep
  have hg := hstep.to_returned
  rw [hg] at hcall hstep
  cases r with
  | error e => cases hstep.of_error
  | ok v =>
    obtain ⟨ch, rfl, -⟩ := hs.of_ok
    obtain ⟨aw', hn', hworld, -⟩ := attempt_acts h ht
    cases hn.symm.trans hn'
    generalize hf : aw.call.effect = f at hcall
    cases hcall
    refine ⟨_, ?_, by rw [hworld, exec_world, hf]; rfl⟩
    simp [Message.completes]

/-- The completion of a job is announced by an attempt of it, which returns. -/
theorem completes_back (h : Stepped cfg s a s') {jobId : Uuid} {m : Message} (hp : s'.world.published = s.world.published ++ [m])
    (hm : m.completes jobId = true) : ∃ (i l : Nat) (data : _) (p : _) (p' : _) (b : Bool), s.tasks[i]? = some (.attempt l data p b) ∧
      s'.tasks[i]? = some (.attempt l data p' b) ∧ data.jobId = jobId ∧ p.outcome = none ∧ p'.outcome = some (.ok ()) := by
  obtain ⟨i, pick, ch, t, aw, rfl, ht, hn, he, -⟩ := published_exec h hp
  have hw := writes_of_next hn
  rw [he] at hw
  cases hw with
  | attempt l data p b _ hc =>
    generalize hg : p.stage data = g at hc
    cases hc with
    | publish n => simp [Message.completes] at hm
    | announce o =>
      obtain ⟨aw', hn', -, ht'⟩ := attempt_acts h ht
      refine ⟨i, l, data, p, _, b, ht, ht', ?_, ?_, ?_⟩
      · simpa [Message.completes] using hm
      · cases hout : p.outcome with
        | none => rfl
        | some o' =>
          rw [next_of_outcome _ hout] at hn'
          cases hn'
      · obtain ⟨aw₀, haw, rfl⟩ := Option.map_eq_some_iff.1 hn
        cases haw.symm.trans hn'
        have hcall : aw'.call.effect = .publish _ := he
        obtain ⟨v, hv⟩ := exec_publish hcall ch s.world
        have hstep := (attempt_stage hn').2 (.ok v)
        rw [hg] at hstep
        rw [hv]
        exact outcome_of_returned hstep.of_announcing
  | listenerPublish | reportPublish => simp [Message.completes] at hm

/-- A step publishes one message at most. -/
theorem published_grows (h : Stepped cfg s a s') :
    s'.world.published = s.world.published ∨ ∃ m, s'.world.published = s.world.published ++ [m] := by
  cases h with
  | @exec i pick ch t aw ht hn =>
    rcases published_apply ch s.world aw.call.effect with hp | ⟨m, -, hp⟩
    · exact Or.inl hp
    · exact Or.inr ⟨m, hp⟩
  | _ => exact Or.inl rfl

/-- The completion of the job of an entry is announced once when an attempt of it has returned, and not at all before. -/
def Told (s : System) (k : Nat) (jobId : Uuid) : Prop :=
  (s.world.published.countP (Message.completes jobId) = 0 ∧
    ∀ (i : Nat) data p b, s.tasks[i]? = some (.attempt k data p b) → p.outcome ≠ some (.ok ())) ∨
  s.world.published.countP (Message.completes jobId) = 1 ∧
    ∃ (i : Nat) (data : _) (p : _) (b : Bool), s.tasks[i]? = some (.attempt k data p b) ∧ p.outcome = some (.ok ())

/-- An attempt that has returned stays so. -/
theorem returned_forward (h : Stepped cfg s a s') {i : Nat} {data : JobPayload} {p : Attempt} {b : Bool}
    (ht : s.tasks[i]? = some (.attempt k data p b)) (ho : p.outcome = some (.ok ())) :
    ∃ b', s'.tasks[i]? = some (.attempt k data p b') := by
  obtain ⟨t', ht', hm⟩ := task_forward h ht
  cases hm with
  | waits => exact ⟨b, ht'⟩
  | attempt hn =>
    rw [next_of_outcome _ ho] at hn
    cases hn
  | settled => exact ⟨true, ht'⟩

/-- Two attempts of an entry, neither of which threw, are one. -/
theorem Turn.one (hI : Turn s k job) {i j : Nat} {data data' : JobPayload} {p p' : Attempt} {b b' : Bool}
    (hi : s.tasks[i]? = some (.attempt k data p b)) (hj : s.tasks[j]? = some (.attempt k data' p' b'))
    (hp : ∀ e, p.outcome ≠ some (.error e)) (hp' : ∀ e, p'.outcome ≠ some (.error e)) : i = j := by
  rcases Nat.lt_trichotomy i j with hlt | heq | hlt
  · obtain ⟨-, e, he⟩ := hI.before i j _ _ _ _ _ _ hlt hi hj
    exact absurd he (hp e)
  · exact heq
  · obtain ⟨-, e, he⟩ := hI.before j i _ _ _ _ _ _ hlt hj hi
    exact absurd he (hp' e)

theorem told_step (hr : (platform cfg).Reach ok s) (h : Stepped cfg s a s') (hk : s.world.queue[k]? = some job) (hI : Turn s k job)
    (hT : Told s k job.payload.jobId) : Told s' k job.payload.jobId := by
  by_cases hnew : ∃ m : Message, m.completes job.payload.jobId = true ∧ s'.world.published = s.world.published ++ [m]
  · obtain ⟨m, hm, hpub⟩ := hnew
    obtain ⟨i, l, data, p, p', b, ht, ht', hid, hout, hout'⟩ := completes_back h hpub hm
    obtain ⟨job₀, hk₀, hd⟩ := (locked hr).entry ht
    obtain rfl : l = k := (oneEntry hr).entries hk₀ hk (by rw [hd, hid])
    rcases hT with ⟨hzero, -⟩ | ⟨-, j, data', q, c, hj, hq⟩
    · refine Or.inr ⟨?_, i, data, p', b, ht', hout'⟩
      rw [hpub, List.countP_append, hzero, List.countP_singleton, if_pos hm]
    · have heq := hI.one hj ht (fun e he => by cases hq.symm.trans he) (fun e he => by cases hout.symm.trans he)
      subst heq
      cases hj.symm.trans ht
      cases hout.symm.trans hq
  · have hsame : s'.world.published.countP (Message.completes job.payload.jobId) =
        s.world.published.countP (Message.completes job.payload.jobId) := by
      rcases published_grows h with hp | ⟨m, hp⟩
      · rw [hp]
      · have hm : ¬ m.completes job.payload.jobId = true := fun hm => hnew ⟨m, hm, hp⟩
        rw [hp, List.countP_append, List.countP_singleton, if_neg hm, Nat.add_zero]
    rcases hT with ⟨hzero, hnone⟩ | ⟨hone, i, data, p, b, ht, ho⟩
    · refine Or.inl ⟨hsame.trans hzero, fun i data p b hi ho => ?_⟩
      rcases task_back h hi with ⟨t, ht, hm⟩ | ⟨-, hsp⟩
      · cases hm with
        | waits | settled => exact hnone _ _ _ _ ht ho
        | attempt hn hs he =>
          subst he
          obtain ⟨m, hm, hpub⟩ := announces h ht hn hs ho
          obtain ⟨job₀, hk₀, rfl⟩ := (locked hr).entry ht
          cases hk.symm.trans hk₀
          exact hnew ⟨m, hm, hpub⟩
      · cases hsp with
        | attempt _ _ _ hd hp =>
          subst hp
          rcases outcome_eq (d := data) ho with ⟨o, hst, -⟩ | ⟨e, hst, -⟩ <;> cases (stage_start data).symm.trans hst
    · obtain ⟨b', ht'⟩ := returned_forward h ht ho
      exact Or.inr ⟨hsame.trans hone, i, data, p, b', ht', ho⟩

/-- An announced completion is one of a job that is queued. -/
def CompletesQueued (s : System) : Prop :=
  ∀ m ∈ s.world.published, ∀ jobId, m.completes jobId = true → ∃ (k : Nat) (job : BullJob), s.world.queue[k]? = some job ∧ job.payload.jobId = jobId

theorem completesQueued (h : (platform cfg).Reach ok s) : CompletesQueued s := by
  refine h.invariant ?_ (fun s a s' hr hI _ hs => ?_)
  · rintro s rfl m hm
    cases hm
  intro m hm jobId hc
  have hst := step_cases hs
  have hkept {k : Nat} {job : BullJob} (hk : s.world.queue[k]? = some job) (hid : job.payload.jobId = jobId) :
      ∃ (k : Nat) (job' : BullJob), s'.world.queue[k]? = some job' ∧ job'.payload.jobId = jobId := by
    obtain ⟨job', hk', hmv⟩ := entry_forward hst hk
    exact ⟨k, job', hk', by rw [hmv.payload, hid]⟩
  by_cases hold : m ∈ s.world.published
  · obtain ⟨k, job, hk, hid⟩ := hI m hold jobId hc
    exact hkept hk hid
  rcases published_grows hst with hsame | ⟨m', hpub⟩
  · exact absurd (hsame ▸ hm) hold
  · have heq : m = m' := by
      rw [hpub] at hm
      rcases List.mem_append.1 hm with hm | hm
      · exact absurd hm hold
      · exact List.mem_singleton.1 hm
    subst heq
    obtain ⟨i, l, data, p, p', b, ht, -, hid, -⟩ := completes_back hst hpub hc
    obtain ⟨job, hk, rfl⟩ := (locked hr).entry ht
    exact hkept hk hid

/-- The completion of a job whose lock is never taken is announced once. -/
theorem told_once (h : (platform cfg).Reach (fun _ a => a ≠ .stall k) s) :
    ∀ job, s.world.queue[k]? = some job → Told s k job.payload.jobId := by
  refine h.invariant (I := fun s => ∀ job, s.world.queue[k]? = some job → Told s k job.payload.jobId) ?_ (fun s a s' hr hI _ hs => ?_)
  · rintro s rfl job hk
    cases hk
  intro job' hk'
  have hst := step_cases hs
  rcases entry_back hst hk' with ⟨job, hk, hm⟩ | ⟨i, u, f, ty, o, row, ch, rfl, ⟨pick, rfl⟩, ht, rfl⟩
  · rw [hm.payload]
    exact told_step hr hst hk (turn hr job hk) (hI job hk)
  -- the entry is new, so no message of its job and no attempt of it is there
  · have hpub : s'.world.published = s.world.published := by
      rw [world_of_exec hst ht rfl]
      rfl
    refine Or.inl ⟨?_, fun j data p b hj ho => ?_⟩
    · rw [hpub, List.countP_eq_zero]
      intro m hm hc
      obtain ⟨l, job, hk, hid⟩ := completesQueued hr m hm row.id hc
      exact (oneEntry hr).fresh ht hk hid
    · exact attempt_new hr hst nofun j data p b hj

/-! ## What is announced of its failures -/

/-- A task that is a done listener does nothing more. -/
theorem listened_next {pick : Nat} {jobId : Uuid} {t : Task} {aw : Await (Task × List Task)} (hn : t.next cfg pick = some aw) :
    t.listened jobId = false := by
  cases t with
  | failedListener j m p =>
    cases p with
    | done => cases hn
    | updateStatus | publish => simp [Task.listened]
  | _ => rfl

/-- The listeners that are done are not fewer after a step. -/
theorem listened_grows (h : Stepped cfg s a s') (jobId : Uuid) :
    s.tasks.countP (Task.listened jobId) ≤ s'.tasks.countP (Task.listened jobId) := by
  have hreplace {i : Nat} {t t' : Task} {left : List Task} (ht : s.tasks[i]? = some t) (hl : t.listened jobId = false) :
      s.tasks.countP (Task.listened jobId) ≤ (Pool.replace s.tasks i t' left).countP (Task.listened jobId) := by
    have hc := Pool.countP_replace (Task.listened jobId) t' left ht
    rw [hl] at hc
    simp only [Bool.false_eq_true, if_false] at hc
    omega
  cases h with
  | exec ht hn | reject ht hn => exact hreplace ht (listened_next hn)
  | settle ht => exact hreplace ht rfl
  | request | startSweep | deliver =>
    rw [System.spawn, List.countP_append]
    exact Nat.le_add_right _ _
  | upload | stall | guestSession | register | tick => exact Nat.le_refl _

/-- A failure is published by a listener, which is done then. -/
theorem fails_back (h : Stepped cfg s a s') {jobId : Uuid} {m : Message} (hp : s'.world.published = s.world.published ++ [m])
    (hm : m.fails jobId = true) :
    s.tasks.countP (Task.listened jobId) + 1 ≤ s'.tasks.countP (Task.listened jobId) := by
  obtain ⟨i, pick, ch, t, aw, rfl, ht, hn, he, -⟩ := published_exec h hp
  have hw := writes_of_next hn
  rw [he] at hw
  cases hw with
  | attempt l data p b _ hc =>
    generalize p.stage data = g at hc
    cases hc with
    | publish n | announce o => simp [Message.fails] at hm
  | reportPublish => simp [Message.fails] at hm
  | listenerPublish j message =>
    have hj : j = jobId := by simpa [Message.fails] using hm
    subst hj
    cases h with
    | exec ht' hn' =>
      cases ht.symm.trans ht'
      cases hn'
      have hc := Pool.countP_replace (Task.listened j) (.failedListener j message .done) [] ht
      simp only [Task.listened, Bool.and_eq_true, decide_eq_true_eq, List.countP_nil] at hc
      simp at hc
      exact Nat.le_of_eq hc.symm

/-- The failures of a job are announced by listeners that are done. -/
theorem failures_listened (h : (platform cfg).Reach ok s) (jobId : Uuid) :
    s.world.published.countP (Message.fails jobId) ≤ s.tasks.countP (Task.listened jobId) := by
  refine h.invariant (I := fun s => s.world.published.countP (Message.fails jobId) ≤ s.tasks.countP (Task.listened jobId)) ?_
    (fun s a s' _ hI _ hs => ?_)
  · rintro s rfl
    exact Nat.le_refl 0
  have hst := step_cases hs
  rcases published_grows hst with hp | ⟨m, hp⟩
  · exact hp ▸ Nat.le_trans hI (listened_grows hst jobId)
  · rw [hp, List.countP_append, List.countP_singleton]
    by_cases hm : m.fails jobId = true
    · rw [if_pos hm]
      exact Nat.le_trans (Nat.add_le_add_right hI 1) (fails_back hst hp hm)
    · rw [if_neg hm]
      exact Nat.le_trans hI (listened_grows hst jobId)

theorem listens_of_listened {jobId : Uuid} {t : Task} (h : t.listened jobId = true) : t.listens jobId = true := by
  cases t with
  | failedListener j m p =>
    simp only [Task.listened, Bool.and_eq_true] at h
    exact h.1
  | _ => cases h

/-! ## The result -/

theorem retries_in_turn (cfg : Config) : RetriesInTurn cfg := by
  intro k s job hr hk
  have hI := turn hr job hk
  have htold := told_once hr job hk
  have hleft := attemptsLeft hr k job hk
  have hover {i : Nat} {data : JobPayload} {p : Attempt} {b : Bool} (ht : s.tasks[i]? = some (.attempt k data p b))
      (hf : job.state = .failed) : GaveUp p b := by
    cases b with
    | false => cases hf.symm.trans (hI.running i data p ht)
    | true =>
      obtain ⟨o, ho⟩ := settledEnded hr _ _ _ _ ht
      cases o with
      | ok v => cases hf.symm.trans (hI.returned i data p ht ho)
      | error e => exact ⟨rfl, e, ho⟩
  refine
    { granted := ⟨hI.granted, ?_⟩
      running := hI.running
      before := hI.before
      completed := ⟨hI.completed, fun ⟨i, data, p, ht, ho⟩ => hI.returned i data p ht ho⟩
      gaveUp := ⟨fun hf => ⟨hI.limit.2 hf, fun i data p b ht => hover ht hf⟩, fun ⟨hmade, hall⟩ => ?_⟩
      announced := ⟨?_, fun hc => ?_⟩
      failures := ?_ }
  · cases hst : job.state with
    | waiting | active =>
      have := hleft (by simp [hst])
      simp only [BullJob.granted, hst]
      omega
    | completed => simpa only [BullJob.granted, hst] using (hI.limit.1 hst).2
    | failed => simpa only [BullJob.granted, hst] using Nat.le_of_eq (hI.limit.2 hst)
  · cases hst : job.state with
    | waiting => exact absurd (hmade ▸ hleft (Or.inl hst)) (Nat.lt_irrefl _)
    | active i => exact absurd (hmade ▸ hleft (Or.inr ⟨i, hst⟩)) (Nat.lt_irrefl _)
    | completed =>
      obtain ⟨i, data, p, ht, ho⟩ := hI.completed hst
      obtain ⟨-, e, he⟩ := hall i data p true ht
      cases ho.symm.trans he
    | failed => rfl
  · rcases htold with ⟨hzero, -⟩ | ⟨hone, -⟩ <;> omega
  · rcases htold with ⟨-, hnone⟩ | ⟨hone, -⟩
    · obtain ⟨i, data, p, ht, ho⟩ := hI.completed hc
      exact absurd ho (hnone i data p true ht)
    · exact hone
  · rw [← hI.listeners]
    exact Nat.le_trans (failures_listened hr _) (List.countP_mono_left (fun t _ ht => listens_of_listened ht))

end FileProcessing
