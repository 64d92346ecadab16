import FileProcessing.Lemmas.Paths

/-!
# The guest sweep and the jobs in flight

The sweep reads its batch once, leaving out the files with a pending or active job, and then removes one file after the other. A
job whose attempt failed has the status `failed` while BullMQ still holds it for a retry, and a job can be created for a file
the sweep has already read. The sweep keeps off the inputs of jobs in flight in the runs where neither happens.
-/

namespace FileProcessing

variable {cfg : Config} {ok : System → Action → Prop} {s s' : System} {a : Action}

/-- The job is waiting in the queue (for its first attempt or a retry), is locked by an attempt, or has an attempt that runs. -/
def InFlight (s : System) (data : JobPayload) : Prop :=
  (∃ (k : Nat) (job : BullJob), s.world.queue[k]? = some job ∧ job.payload = data ∧
    (job.state = .waiting ∨ ∃ i, job.state = .active i)) ∨
  ∃ (i k : Nat) (p : Attempt), s.tasks[i]? = some (.attempt k data p false) ∧ p.outcome = none

/-- The guest sweep never interrupts in-flight processing: it removes neither the object nor the row of the input of a job that
is in flight. -/
def InputsKept (cfg : Config) (ok : System → Action → Prop) : Prop :=
  ∀ s s' (j pick : Nat) ch g rest count data, (platform cfg).Reach ok s → InFlight s data → ok s (.exec j pick ch) →
    (platform cfg).step s (.exec j pick ch) = some s' →
    (s.tasks[j]? = some (.sweep .guestResources (.removeObject g rest count)) →
      ∀ row ∈ s.world.db.files, row.id = data.fileId → g.storagePath ≠ row.storagePath) ∧
    (s.tasks[j]? = some (.sweep .guestResources (.removeRow g rest count)) → g.id ≠ data.fileId)

/-- The conditions on a step: a job is not enqueued while a guest sweep holds its file, or a file under the same path; and when a
guest sweep reads its batch, a job in flight whose input is in it has a row that is pending or active, and no input of a job in
flight shares its path with another file of the batch. -/
structure GuestApart (s : System) (a : Action) : Prop where
  added : ∀ (i pick : Nat) ch u f ty o row, a = .exec i pick ch → s.tasks[i]? = some (.createJob u f ty o (.add row)) →
    ∀ g, HeldItem .guestResources s g → g.id ≠ f ∧ ∀ x ∈ s.world.db.files, x.id = f → g.storagePath ≠ x.storagePath
  open_ : ∀ (i pick : Nat) ch before, a = .exec i pick ch → s.tasks[i]? = some (.sweep .guestResources (.find before)) →
    ∀ g ∈ FileRepository.findExpiredGuestFiles s.world.db before, ∀ data, InFlight s data → g.id = data.fileId →
      ∃ row ∈ s.world.db.jobs, row.id = data.jobId ∧ (row.status = .pending ∨ row.status = .active)
  alone : ∀ (i pick : Nat) ch before, a = .exec i pick ch → s.tasks[i]? = some (.sweep .guestResources (.find before)) →
    ∀ g ∈ FileRepository.findExpiredGuestFiles s.world.db before, ∀ data, InFlight s data →
      ∀ x ∈ s.world.db.files, x.id = data.fileId → x.storagePath = g.storagePath → x.id = g.id

/-- A job in flight has its entry. -/
theorem inFlight_entry (hr : (platform cfg).Reach ok s) {data : JobPayload} (h : InFlight s data) :
    ∃ (k : Nat) (job : BullJob), s.world.queue[k]? = some job ∧ job.payload = data := by
  rcases h with ⟨k, job, hk, hd, -⟩ | ⟨i, k, p, hi, -⟩
  · exact ⟨k, job, hk, hd⟩
  · obtain ⟨job, hk, hd⟩ := (locked hr).entry hi
    exact ⟨k, job, hk, hd⟩

/-- A job is in flight because it was, or because `create` has just added it. -/
theorem inFlight_back (h : Stepped cfg s a s') {data : JobPayload} (hf : InFlight s' data) :
    InFlight s data ∨ ∃ i pick ch u f ty o row, a = .exec i pick ch ∧ s.tasks[i]? = some (.createJob u f ty o (.add row)) ∧
      data.fileId = f := by
  rcases hf with ⟨k, job', hk, hd, hst⟩ | ⟨i, k, p', hi, ho⟩
  · rcases entry_back h hk with ⟨job, hk₀, hm⟩ | ⟨i, u, f, ty, o, row, ch, -, ⟨pick, ha⟩, hi, rfl⟩
    · rw [hm.payload] at hd
      refine Or.inl (Or.inl ⟨k, job, hk₀, hd, ?_⟩)
      cases hm with
      | stays => exact hst
      | delivered _ hw => exact Or.inl hw
      | stalled _ hs => exact Or.inr ⟨_, hs⟩
      | retries _ _ _ hl => exact Or.inr ⟨_, hl⟩
      | finished | gaveUp => rcases hst with hst | ⟨_, hst⟩ <;> cases hst
    · exact Or.inr ⟨i, pick, ch, u, f, ty, o, row, ha, hi, hd ▸ rfl⟩
  · rcases task_back h hi with ⟨t, ht, hm⟩ | ⟨-, hsp⟩
    · cases hm with
      | waits => exact Or.inl (Or.inr ⟨i, k, p', ht, ho⟩)
      | @attempt _ _ p _ _ _ _ pick hn =>
        refine Or.inl (Or.inr ⟨i, k, p, ht, ?_⟩)
        cases hout : p.outcome with
        | none => rfl
        | some o =>
          rw [next_of_outcome pick hout] at hn
          cases hn
    · cases hsp with
      | attempt ha hk hw hd hp => exact Or.inl (Or.inl ⟨k, _, hk, hd.symm, Or.inl hw⟩)

/-- A file with an open job is not in the batch of a guest sweep. -/
theorem not_open_of_batch {db : Db} {before : Time} {g : FileRow} (hg : g ∈ FileRepository.findExpiredGuestFiles db before)
    {row : JobRow} (hrow : row ∈ db.jobs) (hfile : row.fileId = g.id) :
    ¬ (row.status = .pending ∨ row.status = .active) := by
  have hp := (Table.mem_select.1 hg).2
  simp only [Bool.and_eq_true, Bool.not_eq_true', FileRepository.hasOpenJob] at hp
  intro hopen
  have hno := List.any_eq_false.1 hp.2 row hrow
  simp [hfile, hopen] at hno

/-- A guest sweep holds no input of a job in flight, nor a row under the path of one. -/
def InputsApart (s : System) : Prop :=
  ∀ g data, HeldItem .guestResources s g → InFlight s data →
    g.id ≠ data.fileId ∧ ∀ x ∈ s.world.db.files, x.id = data.fileId → g.storagePath ≠ x.storagePath

/-- The rows of an input keep its path. -/
theorem input_path_step (h : Stepped cfg s a s') {f : Uuid} {path : String} (hf : f ∈ s.world.issued)
    (hI : ∀ x ∈ s.world.db.files, x.id = f → path ≠ x.storagePath) :
    ∀ x ∈ s'.world.db.files, x.id = f → path ≠ x.storagePath := by
  intro x hx hid
  rcases files_step h hx with hx₀ | ⟨i, t, ch, e, hw, ⟨x₀, hx₀, hwr⟩ | ⟨data, rfl, rfl, hn, -⟩⟩
  · exact hI x hx₀ hid
  · rw [← hwr.same_file.storagePath]
    exact hI x₀ hx₀ (hwr.same_file.id.trans hid)
  · have hid' : ch.id = f := hid
    exact absurd (hid' ▸ hf) hn

/-- A step keeps the inputs of jobs in flight out of the batches of the guest sweeps. -/
theorem inputsApart_step (hr : (platform cfg).Reach GuestApart s) (hok : GuestApart s a) (h : Stepped cfg s a s')
    (hI : InputsApart s) :
    InputsApart s' := by
  intro g data hg hd
  rcases inFlight_back h hd with hd | ⟨i, pick, ch, u, f, ty, o, row, ha, hi, rfl⟩
  · obtain ⟨k, job, hk, rfl⟩ := inFlight_entry hr hd
    have hissued := ((issued hr).entries hk).2
    rcases heldItem_back h hg with hg | ⟨i, pick, ch, before, ha, hi, hb⟩
    · obtain ⟨hne, hpath⟩ := hI g _ hg hd
      exact ⟨hne, input_path_step h hissued hpath⟩
    · have hne : g.id ≠ job.payload.fileId := by
        intro he
        obtain ⟨row, hrow, hid, hopen⟩ := hok.open_ i pick ch before ha hi g hb _ hd he
        have hfile := ((coherent hr).entries hk hrow hid).1
        exact not_open_of_batch hb hrow (hfile.trans he.symm) hopen
      refine ⟨hne, input_path_step h hissued (fun x hx hid he => hne ?_)⟩
      rw [← hid]
      exact (hok.alone i pick ch before ha hi g hb _ hd x hx hid he.symm).symm
  · have hissued := ((issued hr).creates hi).2
    rcases heldItem_back h hg with hg | ⟨i', pick', ch', before, ha', hi', -⟩
    · obtain ⟨hne, hpath⟩ := hok.added i pick ch u _ ty o row ha hi g hg
      exact ⟨hne, input_path_step h hissued hpath⟩
    · rw [ha] at ha'
      cases ha'
      rw [hi] at hi'
      cases hi'

/-- The invariant, in a run where guest sweeps and jobs are apart. -/
theorem inputsApart (h : (platform cfg).Reach GuestApart s) : InputsApart s := by
  refine h.invariant ?_ (fun s a s' hr hI hok hs => inputsApart_step hr hok (step_cases hs) hI)
  rintro s rfl g data ⟨i, p, hi, -⟩
  cases hi

/-! ## The result -/

/-- The guest sweep keeps off the inputs of jobs in flight in every run where the two are apart. -/
theorem inputs_kept (cfg : Config) : InputsKept cfg GuestApart := by
  intro s s' j pick ch g rest count data hr hd _ _
  refine ⟨fun hj row hrow hid => ?_, fun hj => ?_⟩
  · exact (inputsApart hr g data ⟨j, _, hj, List.mem_cons_self⟩ hd).2 row hrow hid
  · exact (inputsApart hr g data ⟨j, _, hj, List.mem_cons_self⟩ hd).1

/-- The first attempt of a job fails, its listener writes `failed`, and a guest sweep reads the file while BullMQ holds the job
for a retry. -/
def sweptRetry : List Action := Trace.upload ++ Trace.job ++
  [.deliver 0, Trace.call 3 0, Trace.drop 3, .settle 3, Trace.call 4 0, .tick 3600001, .startSweep .guestResources,
    Trace.call 5 0, Trace.call 5 0]

/-- The sweep is about to remove the object of the input of a job that waits in the queue. -/
def sweepsInput (s : System) : Bool :=
  match s.tasks[5]? with
  | some (Task.sweep .guestResources (.removeObject g _ _)) =>
    s.world.queue.any (fun job => job.state = .waiting &&
      s.world.db.files.rows.any (fun row => row.id = job.payload.fileId && row.storagePath = g.storagePath))
  | _ => false

/-- The guest sweep does not keep off the inputs of jobs in flight in every run: it removes the input of a job that waits for its
retry. -/
theorem input_swept : ¬ InputsKept Config.default Lts.Free := by
  intro h
  have hrun : ((platform Config.default).run System.empty sweptRetry).any (fun s =>
      sweepsInput s && ((platform Config.default).step s (Trace.call 5 0)).isSome) = true := by
    decide +kernel
  obtain ⟨s, hs, hp⟩ := Trace.reach hrun
  rw [Bool.and_eq_true] at hp
  obtain ⟨hswept, hstep⟩ := hp
  obtain ⟨s', hs'⟩ := Option.isSome_iff_exists.1 hstep
  unfold sweepsInput at hswept
  split at hswept
  · rename_i g rest count hj
    obtain ⟨job, hjob, hw⟩ := List.any_eq_true.1 hswept
    rw [Bool.and_eq_true, decide_eq_true_eq] at hw
    obtain ⟨row, hrow, hr⟩ := List.any_eq_true.1 hw.2
    rw [Bool.and_eq_true, decide_eq_true_eq, decide_eq_true_eq] at hr
    obtain ⟨k, hk⟩ := List.getElem?_of_mem hjob
    have hd : InFlight s job.payload := Or.inl ⟨k, job, hk, rfl, Or.inl hw.1⟩
    exact (h s s' 5 0 _ g rest count _ hs hd trivial hs').1 hj row hrow hr.1 hr.2.symm
  · cases hswept

end FileProcessing
