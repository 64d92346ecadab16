import FileProcessing.Lemmas.Stages
import FileProcessing.System

/-!
# What a step of the system does

`step_cases` inverts the step function once. What follows reads off it: what the task at a place becomes (`task_forward`,
`task_back`), and where the rows, the objects and the entries of the queue after the step come from. A write is traced to the
task that makes it by `Writes`.
-/

namespace FileProcessing

/-! ## The step, inverted -/

/-- The steps of the system, one constructor an action. -/
inductive Stepped (cfg : Config) (s : System) : Action → System → Prop where
  | request (r : Request) (random : Uuid) (hs : r.userId ∈ s.world.sessions) (hi : random ∉ s.world.issued) :
      Stepped cfg s (.request r random) ({ s with world := s.world.issue random }.spawn (r.task cfg random))
  | startSweep (kind : SweepKind) : Stepped cfg s (.startSweep kind) (s.spawn (.sweep kind .cutoff))
  | exec {i pick : Nat} {ch : Choice} {t : Task} {aw : Await (Task × List Task)} (ht : s.tasks[i]? = some t)
      (hn : t.next cfg pick = some aw) :
      Stepped cfg s (.exec i pick ch)
        (s.resume i (aw.call.effect.apply ch s.world) (aw.resume (aw.call.exec ch s.world).1))
  | reject {i pick : Nat} {e : Err} {t : Task} {aw : Await (Task × List Task)} (ht : s.tasks[i]? = some t)
      (hn : t.next cfg pick = some aw) (hf : aw.call.infallible = false) :
      Stepped cfg s (.reject i pick e) (s.resume i s.world (aw.resume (.error e)))
  | upload (policy : PostPolicy) (size : Nat) (hp : policy ∈ s.world.policies) (hmin : policy.minLength ≤ size)
      (hmax : size ≤ policy.maxLength) :
      Stepped cfg s (.upload policy size) { s with world := s.world.setObject policy.key (some ⟨size⟩) }
  | deliver {k : Nat} {job : BullJob} (hk : s.world.queue[k]? = some job) (hw : job.state = .waiting) :
      Stepped cfg s (.deliver k) ({ s with world := { s.world with
        queue := s.world.queue.set k { job with state := .active s.tasks.length } } }.spawn
        (.attempt k job.payload (Attempt.start job.payload) false))
  | stall {k i : Nat} {job : BullJob} (hk : s.world.queue[k]? = some job) (ha : job.state = .active i) :
      Stepped cfg s (.stall k) { s with world := { s.world with queue := s.world.queue.set k { job with state := .waiting } } }
  | settle {i k : Nat} {data : JobPayload} {p : Attempt} {outcome : Except Err Unit}
      (ht : s.tasks[i]? = some (.attempt k data p false)) (ho : p.outcome = some outcome) :
      Stepped cfg s (.settle i) (s.resume i { s.world with queue := s.world.queue.modify k (BullJob.settle i outcome) }
        (.attempt k data p true, listenerOf data outcome))
  | guestSession (id : Uuid) (hi : id ∉ s.world.issued) :
      Stepped cfg s (.guestSession id) { s with world := { s.world.issue id with sessions := id :: s.world.sessions } }
  | register (user : User) (users : Table User.id) (hi : user.id ∉ s.world.issued) :
      Stepped cfg s (.register user) { s with world := { s.world.issue user.id with
        db := { s.world.db with users := users }, sessions := user.id :: s.world.sessions } }
  | tick (ms : Nat) : Stepped cfg s (.tick ms) { s with world := { s.world with now := s.world.now + ms } }

/-- A step of the platform is one of these. -/
theorem step_cases {cfg : Config} {s s' : System} {a : Action} (h : (platform cfg).step s a = some s') :
    Stepped cfg s a s' := by
  simp only [platform] at h
  cases a with
  | request r random =>
    simp only [System.step, Option.ite_none_right_eq_some, Option.some.injEq] at h
    obtain ⟨⟨hs, hi⟩, rfl⟩ := h
    exact .request r random hs hi
  | startSweep kind =>
    simp only [System.step, Option.some.injEq] at h
    exact h ▸ .startSweep kind
  | exec i pick ch =>
    simp only [System.step] at h
    split at h
    · cases h
    rename_i t ht
    split at h
    · cases h
    rename_i aw hn
    simp only [Option.some.injEq, exec_world] at h
    exact h ▸ .exec ht hn
  | reject i pick e =>
    simp only [System.step] at h
    split at h
    · cases h
    rename_i t ht
    split at h
    · cases h
    rename_i aw hn
    simp only [Option.ite_none_left_eq_some, Bool.not_eq_true, Option.some.injEq] at h
    obtain ⟨hf, rfl⟩ := h
    exact .reject ht hn hf
  | upload policy size =>
    simp only [System.step, Option.ite_none_right_eq_some, Option.some.injEq] at h
    obtain ⟨⟨hp, hmin, hmax, -⟩, rfl⟩ := h
    exact .upload policy size hp hmin hmax
  | deliver k =>
    simp only [System.step] at h
    split at h
    · cases h
    rename_i job hk
    simp only [Option.ite_none_right_eq_some, Option.some.injEq] at h
    obtain ⟨hw, rfl⟩ := h
    exact .deliver hk hw
  | stall k =>
    simp only [System.step] at h
    split at h
    · cases h
    rename_i job hk
    split at h
    · rename_i i ha
      simp only [Option.some.injEq] at h
      exact h ▸ .stall hk ha
    · cases h
  | settle i =>
    simp only [System.step] at h
    split at h
    · rename_i k data p ht
      split at h
      · cases h
      rename_i outcome ho
      simp only [Option.some.injEq] at h
      exact h ▸ .settle ht ho
    · cases h
  | guestSession id =>
    simp only [System.step, Option.ite_none_left_eq_some, Option.some.injEq] at h
    obtain ⟨hi, rfl⟩ := h
    exact .guestSession id hi
  | register user =>
    simp only [System.step, Option.ite_none_left_eq_some, not_or, Option.map_eq_some_iff] at h
    obtain ⟨⟨hi, -⟩, users, -, rfl⟩ := h
    exact .register user users hi
  | tick ms =>
    simp only [System.step, Option.some.injEq] at h
    exact h ▸ .tick ms

/-! ## What a task writes -/

/-- The write of the call a task awaits. -/
inductive Writes : Task → Effect → Prop where
  | nothing (t : Task) : Writes t .none
  | createFile (userId : Uuid) (input : FileService.CreateUploadUrlInput) (objectKey : String) :
      Writes (.createUploadUrl userId input (.create objectKey)) (.createFile
        { userId := userId, originalName := input.filename, mimeType := input.mimeType, size := input.size,
          storagePath := objectKey, status := .pending })
  | presign (userId : Uuid) (input : FileService.CreateUploadUrlInput) (file : FileRow) (policy : PostPolicy) :
      Writes (.createUploadUrl userId input (.presign file policy)) (.presign policy)
  | markReady (userId fileId : Uuid) (file : FileRow) :
      Writes (.confirmUpload userId fileId (.markReady file)) (.markReady userId fileId)
  | deleteFile (userId fileId : Uuid) : Writes (.deleteFile userId fileId .softDelete) (.softDelete userId fileId)
  | createJob (userId fileId : Uuid) (type : String) (options : Option JobOptions) :
      Writes (.createJob userId fileId type options .create)
        (.createJob { userId := userId, fileId := fileId, type := type, status := .pending, progress := 0 })
  | queueAdd (userId fileId : Uuid) (type : String) (options : Option JobOptions) (job : JobRow) :
      Writes (.createJob userId fileId type options (.add job))
        (.queueAdd { jobId := job.id, fileId := fileId, type := type, userId := userId, options := options })
  | cancelJob (userId jobId : Uuid) : Writes (.cancelJob userId jobId .cancel) (.cancelJob userId jobId)
  | attempt (k : Nat) (data : JobPayload) (p : Attempt) (b : Bool) (e : Effect) (hc : StageCall data (p.stage data) e) :
      Writes (.attempt k data p b) e
  | listenerUpdate (jobId : Uuid) (message : String) :
      Writes (.failedListener jobId message .updateStatus) (.updateStatus jobId .failed { errorMessage := some message })
  | listenerPublish (jobId : Uuid) (message : String) :
      Writes (.failedListener jobId message .publish) (.publish ⟨jobId, .failed message⟩)
  | reportProgress (r : Report) : Writes (.report r false) (.updateProgress r.jobId r.progress)
  | reportPublish (r : Report) : Writes (.report r false) (.publish ⟨r.jobId, .progress r.progress .active⟩)
  | removeObject (kind : SweepKind) (file : FileRow) (rest : List FileRow) (count : Nat) :
      Writes (.sweep kind (.removeObject file rest count)) (.removeObject file.storagePath)
  | softDelete (file : FileRow) (rest : List FileRow) (count : Nat) :
      Writes (.sweep .pendingUploads (.removeRow file rest count)) (.softDelete file.userId file.id)
  | hardDelete (file : FileRow) (rest : List FileRow) (count : Nat) :
      Writes (.sweep .guestResources (.removeRow file rest count)) (.hardDelete file.userId file.id)

/-- Every call of a task is accounted for. -/
theorem writes_of_next {cfg : Config} {pick : Nat} {t : Task} {aw : Await (Task × List Task)}
    (h : t.next cfg pick = some aw) : Writes t aw.call.effect := by
  cases t with
  | createUploadUrl u input p =>
    obtain ⟨aw, haw, rfl⟩ := Option.map_eq_some_iff.1 h
    cases p <;> cases haw <;> constructor
  | confirmUpload u f p =>
    obtain ⟨aw, haw, rfl⟩ := Option.map_eq_some_iff.1 h
    cases p <;> cases haw <;> constructor
  | deleteFile u f p =>
    obtain ⟨aw, haw, rfl⟩ := Option.map_eq_some_iff.1 h
    cases p <;> cases haw <;> constructor
  | createJob u f ty o p =>
    obtain ⟨aw, haw, rfl⟩ := Option.map_eq_some_iff.1 h
    cases p <;> cases haw <;> constructor
  | cancelJob u j p =>
    obtain ⟨aw, haw, rfl⟩ := Option.map_eq_some_iff.1 h
    cases p <;> cases haw <;> constructor
  | attempt k data p b =>
    obtain ⟨aw, haw, rfl⟩ := Option.map_eq_some_iff.1 h
    exact .attempt k data p b _ (attempt_stage haw).1
  | failedListener j m p =>
    obtain ⟨aw, haw, rfl⟩ := Option.map_eq_some_iff.1 h
    cases p <;> cases haw <;> constructor
  | report r done =>
    cases done with
    | true => cases h
    | false =>
      cases h
      obtain ⟨j, n, target⟩ := r
      cases target
      · exact .nothing _
      · exact .reportProgress ⟨j, n, _⟩
      · exact .reportPublish ⟨j, n, _⟩
  | sweep kind p =>
    obtain ⟨aw, haw, rfl⟩ := Option.map_eq_some_iff.1 h
    cases p with
    | find before => cases haw; cases kind <;> exact .nothing _
    | removeRow file rest count => cases haw; cases kind <;> constructor
    | _ => cases haw <;> constructor

/-- In this step task `i`, which is `t`, makes a call whose write is `e`. -/
structure Wrote (s : System) (a : Action) (i : Nat) (t : Task) (ch : Choice) (e : Effect) : Prop where
  action : ∃ pick, a = .exec i pick ch
  task : s.tasks[i]? = some t
  call : ∃ cfg pick aw, t.next cfg pick = some aw ∧ aw.call.effect = e

/-- It is one of the writes of the task. -/
theorem Wrote.writes {s : System} {a : Action} {i : Nat} {t : Task} {ch : Choice} {e : Effect} (h : Wrote s a i t ch e) : Writes t e := by
  obtain ⟨cfg, pick, aw, hn, rfl⟩ := h.call
  exact writes_of_next hn

/-! ## Who makes a write -/

section Writers

variable {s : System} {a : Action} {i : Nat} {t : Task} {ch : Choice}

/-- A job is created by `create`. -/
theorem job_creator {data : NewJob} (hw : Wrote s a i t ch (.createJob data)) :
    ∃ u f ty o, t = .createJob u f ty o .create ∧ data = ⟨u, f, ty, .pending, 0⟩ := by
  cases hw.writes with
  | createJob u f ty o => exact ⟨u, f, ty, o, rfl, rfl⟩
  | attempt _ _ _ _ _ hc => exact False.elim hc.ofAttempt

/-- A job is added to the queue by `create`. -/
theorem job_enqueuer {payload : JobPayload} (hw : Wrote s a i t ch (.queueAdd payload)) :
    ∃ u f ty o row, t = .createJob u f ty o (.add row) ∧ payload = ⟨row.id, f, ty, u, o⟩ := by
  cases hw.writes with
  | queueAdd u f ty o row => exact ⟨u, f, ty, o, row, rfl, rfl⟩
  | attempt _ _ _ _ _ hc => exact False.elim hc.ofAttempt

/-- A job is cancelled by `cancel`. -/
theorem job_canceller {u j : Uuid} (hw : Wrote s a i t ch (.cancelJob u j)) : t = .cancelJob u j .cancel := by
  cases hw.writes with
  | cancelJob => rfl
  | attempt _ _ _ _ _ hc => exact False.elim hc.ofAttempt

/-- A file is marked ready by `confirmUpload`. -/
theorem ready_marker {u f : Uuid} (hw : Wrote s a i t ch (.markReady u f)) : ∃ file, t = .confirmUpload u f (.markReady file) := by
  cases hw.writes with
  | markReady _ _ file => exact ⟨file, rfl⟩
  | attempt _ _ _ _ _ hc => exact False.elim hc.ofAttempt

/-- A policy is signed by `createUploadUrl`. -/
theorem policy_signer {policy : PostPolicy} (hw : Wrote s a i t ch (.presign policy)) :
    ∃ u input file, t = .createUploadUrl u input (.presign file policy) := by
  cases hw.writes with
  | presign u input file => exact ⟨u, input, file, rfl⟩
  | attempt _ _ _ _ _ hc => exact False.elim hc.ofAttempt

/-- An object is removed by a sweep, which is at the item of its key. -/
theorem object_remover {key : String} (hw : Wrote s a i t ch (.removeObject key)) :
    ∃ kind g rest count, t = .sweep kind (.removeObject g rest count) ∧ g.storagePath = key := by
  cases hw.writes with
  | removeObject kind g rest count => exact ⟨kind, g, rest, count, rfl, rfl⟩
  | attempt _ _ _ _ _ hc => exact False.elim hc.ofAttempt

/-- A row is marked deleted by a call of `delete`, or by a sweep of pending uploads. -/
theorem row_deleter {u f : Uuid} (hw : Wrote s a i t ch (.softDelete u f)) : t = .deleteFile u f .softDelete ∨
    ∃ g rest count, t = .sweep .pendingUploads (.removeRow g rest count) ∧ g.userId = u ∧ g.id = f := by
  cases hw.writes with
  | deleteFile => exact Or.inl rfl
  | softDelete g rest count => exact Or.inr ⟨g, rest, count, rfl, rfl, rfl⟩
  | attempt _ _ _ _ _ hc => exact False.elim hc.ofAttempt

/-- A row is removed by a sweep of guest resources. -/
theorem row_remover {u f : Uuid} (hw : Wrote s a i t ch (.hardDelete u f)) :
    ∃ g rest count, t = .sweep .guestResources (.removeRow g rest count) ∧ g.userId = u ∧ g.id = f := by
  cases hw.writes with
  | hardDelete g rest count => exact ⟨g, rest, count, rfl, rfl, rfl⟩
  | attempt _ _ _ _ _ hc => exact False.elim hc.ofAttempt

end Writers

/-! ## What the tasks become -/

/-- How the call a task awaits settles in this step: it is executed, or it fails in transit. -/
inductive Settles (s : System) (i pick : Nat) : Action → {α : Type} → Call α → Except Err α → Prop where
  | exec (ch : Choice) {α : Type} (c : Call α) : Settles s i pick (.exec i pick ch) c (c.exec ch s.world).1
  | reject (e : Err) {α : Type} (c : Call α) (hf : c.infallible = false) :
      Settles s i pick (.reject i pick e) c (.error e)

/-- A call that settles with a value was executed. -/
theorem Settles.of_ok {s : System} {i pick : Nat} {a : Action} {α : Type} {c : Call α} {v : α}
    (h : Settles s i pick a c (.ok v)) : ∃ ch, a = .exec i pick ch ∧ (c.exec ch s.world).1 = .ok v := by
  generalize hr : Except.ok v = r at h
  cases h with
  | exec ch => exact ⟨ch, rfl, rfl⟩
  | reject => cases hr

/-- A call that settles with an error failed in transit, or was rejected. -/
theorem Settles.of_error {s : System} {i pick : Nat} {a : Action} {α : Type} {c : Call α} {e : Err}
    (h : Settles s i pick a c (.error e)) :
    a = .reject i pick e ∨ ∃ ch, a = .exec i pick ch ∧ (c.exec ch s.world).1 = .error e := by
  generalize hr : Except.error e = r at h
  cases h with
  | exec ch => exact Or.inr ⟨ch, rfl, rfl⟩
  | reject e' =>
    cases hr
    exact Or.inl rfl

/-- The place of the task that acts in a step. -/
def Action.actor : Action → Option Nat
  | .exec i _ _ | .reject i _ _ | .settle i => some i
  | _ => none

/-- What the task at a place becomes in a step: it waits, its call settles, or BullMQ settles an attempt that has ended. -/
inductive TaskMoves (cfg : Config) (s : System) (a : Action) (i : Nat) : Task → Task → Prop where
  | waits (t : Task) (hw : a.actor ≠ some i) : TaskMoves cfg s a i t t
  | createUploadUrl {u input p p' aw r pick} (hn : FileService.createUploadUrl cfg u input p = some aw)
      (hr : Settles s i pick a aw.call r) (he : aw.resume r = p') :
      TaskMoves cfg s a i (.createUploadUrl u input p) (.createUploadUrl u input p')
  | confirmUpload {u f p p' aw r pick} (hn : FileService.confirmUpload u f p = some aw)
      (hr : Settles s i pick a aw.call r) (he : aw.resume r = p') :
      TaskMoves cfg s a i (.confirmUpload u f p) (.confirmUpload u f p')
  | deleteFile {u f p p' aw r pick} (hn : FileService.delete u f p = some aw)
      (hr : Settles s i pick a aw.call r) (he : aw.resume r = p') :
      TaskMoves cfg s a i (.deleteFile u f p) (.deleteFile u f p')
  | createJob {u f ty o p p' aw r pick} (hn : JobService.create u f ty o p = some aw)
      (hr : Settles s i pick a aw.call r) (he : aw.resume r = p') :
      TaskMoves cfg s a i (.createJob u f ty o p) (.createJob u f ty o p')
  | cancelJob {u j p p' aw r pick} (hn : JobService.cancel u j p = some aw)
      (hr : Settles s i pick a aw.call r) (he : aw.resume r = p') :
      TaskMoves cfg s a i (.cancelJob u j p) (.cancelJob u j p')
  | attempt {k data p p' b aw r pick} (hn : p.next data pick = some aw)
      (hr : Settles s i pick a aw.call r) (he : (aw.resume r).1 = p') :
      TaskMoves cfg s a i (.attempt k data p b) (.attempt k data p' b)
  | settled {k data p outcome} (ho : p.outcome = some outcome) (ha : a = .settle i) :
      TaskMoves cfg s a i (.attempt k data p false) (.attempt k data p true)
  | failedListener {j m p p' aw r pick} (hn : failedListener j m p = some aw)
      (hr : Settles s i pick a aw.call r) (he : aw.resume r = p') :
      TaskMoves cfg s a i (.failedListener j m p) (.failedListener j m p')
  | report {x r pick} (hr : Settles s i pick a x.call r) : TaskMoves cfg s a i (.report x false) (.report x true)
  | sweep {kind p p' aw r pick} (hn : FileProcessing.sweep cfg kind p = some aw)
      (hr : Settles s i pick a aw.call r) (he : aw.resume r = p') :
      TaskMoves cfg s a i (.sweep kind p) (.sweep kind p')

/-- The tasks a step spawns. -/
inductive Spawns (cfg : Config) (s : System) (a : Action) : Task → Prop where
  | createUploadUrl {u input p} (random : Uuid) (hi : random ∉ s.world.issued)
      (ha : a = .request (.createUploadUrl u input) random) (hp : p = FileService.createUploadUrl.start cfg u input random) :
      Spawns cfg s a (.createUploadUrl u input p)
  | confirmUpload (u f : Uuid) : Spawns cfg s a (.confirmUpload u f .findById)
  | deleteFile (u f : Uuid) : Spawns cfg s a (.deleteFile u f .findById)
  | createJob (u f : Uuid) (ty : String) (o : Option JobOptions) : Spawns cfg s a (.createJob u f ty o .findFile)
  | cancelJob (u j : Uuid) : Spawns cfg s a (.cancelJob u j .findById)
  | attempt {k data p job} (ha : a = .deliver k) (hk : s.world.queue[k]? = some job) (hw : job.state = .waiting)
      (hd : data = job.payload) (hp : p = Attempt.start data) : Spawns cfg s a (.attempt k data p false)
  | failedListener {i k data p e j m} (ha : a = .settle i) (ht : s.tasks[i]? = some (.attempt k data p false))
      (ho : p.outcome = some (.error e)) (hj : j = data.jobId) (hm : m = e.message) :
      Spawns cfg s a (.failedListener j m .updateStatus)
  | report (r : Report) : Spawns cfg s a (.report r false)
  | sweep (kind : SweepKind) : Spawns cfg s a (.sweep kind .cutoff)

/-- The task whose call settles moves on; what it leaves behind are reports. -/
theorem next_moves {cfg : Config} {s : System} {a : Action} {i pick : Nat} {t : Task} {aw : Await (Task × List Task)}
    {r : Except Err aw.α} (hn : t.next cfg pick = some aw) (hr : Settles s i pick a aw.call r) :
    TaskMoves cfg s a i t (aw.resume r).1 ∧ ∀ x ∈ (aw.resume r).2, Spawns cfg s a x := by
  cases t with
  | createUploadUrl u input p =>
    obtain ⟨aw, haw, rfl⟩ := Option.map_eq_some_iff.1 hn
    exact ⟨.createUploadUrl haw hr rfl, fun x hx => nomatch hx⟩
  | confirmUpload u f p =>
    obtain ⟨aw, haw, rfl⟩ := Option.map_eq_some_iff.1 hn
    exact ⟨.confirmUpload haw hr rfl, fun x hx => nomatch hx⟩
  | deleteFile u f p =>
    obtain ⟨aw, haw, rfl⟩ := Option.map_eq_some_iff.1 hn
    exact ⟨.deleteFile haw hr rfl, fun x hx => nomatch hx⟩
  | createJob u f ty o p =>
    obtain ⟨aw, haw, rfl⟩ := Option.map_eq_some_iff.1 hn
    exact ⟨.createJob haw hr rfl, fun x hx => nomatch hx⟩
  | cancelJob u j p =>
    obtain ⟨aw, haw, rfl⟩ := Option.map_eq_some_iff.1 hn
    exact ⟨.cancelJob haw hr rfl, fun x hx => nomatch hx⟩
  | attempt k data p b =>
    obtain ⟨aw, haw, rfl⟩ := Option.map_eq_some_iff.1 hn
    refine ⟨.attempt haw hr rfl, fun x hx => ?_⟩
    obtain ⟨y, -, rfl⟩ := List.mem_map.1 hx
    exact .report y
  | failedListener j m p =>
    obtain ⟨aw, haw, rfl⟩ := Option.map_eq_some_iff.1 hn
    exact ⟨.failedListener haw hr rfl, fun x hx => nomatch hx⟩
  | report x done =>
    cases done with
    | true => cases hn
    | false =>
      cases hn
      exact ⟨.report hr, fun x hx => nomatch hx⟩
  | sweep kind p =>
    obtain ⟨aw, haw, rfl⟩ := Option.map_eq_some_iff.1 hn
    exact ⟨.sweep haw hr rfl, fun x hx => nomatch hx⟩

/-- A request spawns its task. -/
theorem request_spawns {cfg : Config} {s : System} (r : Request) {random : Uuid} (hi : random ∉ s.world.issued) :
    Spawns cfg s (.request r random) (r.task cfg random) := by
  cases r with
  | createUploadUrl u input => exact .createUploadUrl random hi rfl rfl
  | _ => constructor

/-- What the task at a place becomes. -/
theorem task_forward {cfg : Config} {s s' : System} {a : Action} {j : Nat} {t : Task} (h : Stepped cfg s a s')
    (hj : s.tasks[j]? = some t) : ∃ t', s'.tasks[j]? = some t' ∧ TaskMoves cfg s a j t t' := by
  have hlt : j < s.tasks.length := (List.getElem?_eq_some_iff.1 hj).1
  have happ (x : Task) : (s.tasks ++ [x])[j]? = some t := by rw [List.getElem?_append_left hlt, hj]
  cases h with
  | request | startSweep | deliver => exact ⟨t, happ _, .waits t (by nofun)⟩
  | upload | stall | guestSession | register | tick => exact ⟨t, hj, .waits t (by nofun)⟩
  | @exec i pick ch t₀ aw ht hn =>
    by_cases hi : j = i
    · subst hi
      rw [hj] at ht
      cases ht
      exact ⟨_, Pool.getElem?_replace_self hj, (next_moves hn (.exec ch aw.call)).1⟩
    · exact ⟨t, Pool.getElem?_replace_of_ne hi hj, .waits t (fun he => hi (Option.some.inj he).symm)⟩
  | @reject i pick e t₀ aw ht hn hf =>
    by_cases hi : j = i
    · subst hi
      rw [hj] at ht
      cases ht
      exact ⟨_, Pool.getElem?_replace_self hj, (next_moves hn (.reject e aw.call hf)).1⟩
    · exact ⟨t, Pool.getElem?_replace_of_ne hi hj, .waits t (fun he => hi (Option.some.inj he).symm)⟩
  | @settle i k data p outcome ht ho =>
    by_cases hi : j = i
    · subst hi
      rw [hj] at ht
      cases ht
      exact ⟨_, Pool.getElem?_replace_self hj, .settled ho rfl⟩
    · exact ⟨t, Pool.getElem?_replace_of_ne hi hj, .waits t (fun he => hi (Option.some.inj he).symm)⟩

/-- Where the task at a place after the step comes from: from the one that was there, or it was spawned. -/
theorem task_back {cfg : Config} {s s' : System} {a : Action} {j : Nat} {t' : Task} (h : Stepped cfg s a s')
    (hj : s'.tasks[j]? = some t') :
    (∃ t, s.tasks[j]? = some t ∧ TaskMoves cfg s a j t t') ∨ (s.tasks.length ≤ j ∧ Spawns cfg s a t') := by
  by_cases hlt : j < s.tasks.length
  · obtain ⟨t₁, h1, hm⟩ := task_forward h (List.getElem?_eq_getElem hlt)
    rw [hj] at h1
    cases h1
    exact Or.inl ⟨_, List.getElem?_eq_getElem hlt, hm⟩
  refine Or.inr ⟨by omega, ?_⟩
  have hnew {x : Task} (hx : (s.tasks ++ [x])[j]? = some t') : t' = x := by
    rw [List.getElem?_append_right (by omega)] at hx
    exact List.mem_singleton.1 (List.mem_of_getElem? hx)
  have hspawned {i : Nat} {x : Task} {l : List Task} (hx : (Pool.replace s.tasks i x l)[j]? = some t')
      (hi : i < s.tasks.length) : t' ∈ l := by
    rcases Pool.getElem?_replace hx with ⟨rfl, -⟩ | ⟨-, h'⟩ | ⟨-, h'⟩
    · exact absurd hi hlt
    · exact absurd (List.getElem?_eq_some_iff.1 h').1 hlt
    · exact h'
  have hnone : ¬ s.tasks[j]? = some t' := fun h' => hlt (List.getElem?_eq_some_iff.1 h').1
  cases h with
  | request r random hs hi => exact hnew hj ▸ request_spawns r hi
  | startSweep kind => exact hnew hj ▸ .sweep kind
  | deliver hk hw => exact hnew hj ▸ .attempt rfl hk hw rfl rfl
  | upload | stall | guestSession | register | tick => exact absurd hj hnone
  | @exec i pick ch t₀ aw ht hn =>
    exact (next_moves hn (.exec ch aw.call)).2 t' (hspawned hj (List.getElem?_eq_some_iff.1 ht).1)
  | @reject i pick e t₀ aw ht hn hf =>
    exact (next_moves hn (.reject e aw.call hf)).2 t' (hspawned hj (List.getElem?_eq_some_iff.1 ht).1)
  | @settle i k data p outcome ht ho =>
    have hmem := hspawned hj (List.getElem?_eq_some_iff.1 ht).1
    cases outcome with
    | ok v => exact nomatch hmem
    | error e => exact List.mem_singleton.1 hmem ▸ .failedListener rfl ht ho rfl rfl

/-- The request a task serves. -/
def Task.request : Task → Option Request
  | .createUploadUrl userId input _ => some (.createUploadUrl userId input)
  | .confirmUpload userId fileId _ => some (.confirmUpload userId fileId)
  | .deleteFile userId fileId _ => some (.deleteFile userId fileId)
  | .createJob userId fileId type options _ => some (.createJob userId fileId type options)
  | .cancelJob userId jobId _ => some (.cancelJob userId jobId)
  | _ => none

/-- A task serves the same request to its end. -/
theorem TaskMoves.request {cfg : Config} {s : System} {a : Action} {i : Nat} {t t' : Task} (h : TaskMoves cfg s a i t t') :
    t'.request = t.request := by
  cases h <;> rfl

/-- What a task leaves behind serves no request. -/
theorem next_leaves {cfg : Config} {pick : Nat} {t : Task} {aw : Await (Task × List Task)} {r : Except Err aw.α}
    (hn : t.next cfg pick = some aw) {x : Task} (hx : x ∈ (aw.resume r).2) : x.request = none := by
  cases t with
  | attempt k data p b =>
    obtain ⟨aw, -, rfl⟩ := Option.map_eq_some_iff.1 hn
    obtain ⟨report, -, rfl⟩ := List.mem_map.1 hx
    rfl
  | report x' done =>
    cases done <;> cases hn
    cases hx
  | _ =>
    obtain ⟨aw, -, rfl⟩ := Option.map_eq_some_iff.1 hn
    cases hx

/-- A task that is new and serves a request has been started by it. -/
theorem requested {cfg : Config} {s s' : System} {a : Action} {j : Nat} {t' : Task} {r : Request} (h : Stepped cfg s a s')
    (hj : s'.tasks[j]? = some t') (hnew : s.tasks.length ≤ j) (hr : t'.request = some r) :
    ∃ random, a = .request r random ∧ t' = r.task cfg random := by
  have hadded {x : Task} (hx : (s.tasks ++ [x])[j]? = some t') : t' = x := by
    rw [List.getElem?_append_right hnew] at hx
    exact List.mem_singleton.1 (List.mem_of_getElem? hx)
  have hleft {i : Nat} {x t : Task} {l : List Task} (hx : (Pool.replace s.tasks i x l)[j]? = some t') (ht : s.tasks[i]? = some t) :
      t' ∈ l := by
    have hi := (List.getElem?_eq_some_iff.1 ht).1
    rcases Pool.getElem?_replace hx with ⟨rfl, -⟩ | ⟨-, h'⟩ | ⟨-, h'⟩
    · omega
    · have := (List.getElem?_eq_some_iff.1 h').1
      omega
    · exact h'
  have hnone : ¬ s.tasks[j]? = some t' := fun h' => by
    have := (List.getElem?_eq_some_iff.1 h').1
    omega
  cases h with
  | request r' random =>
    have ht := hadded hj
    subst ht
    have hr' : r' = r := by
      cases r' <;> exact Option.some.inj hr
    exact ⟨random, hr' ▸ rfl, hr' ▸ rfl⟩
  | startSweep | deliver =>
    rw [hadded hj] at hr
    cases hr
  | upload | stall | guestSession | register | tick => exact absurd hj hnone
  | exec ht hn | reject ht hn =>
    rw [next_leaves hn (hleft hj ht)] at hr
    cases hr
  | @settle i k data p outcome ht ho =>
    have hmem := hleft hj ht
    cases outcome with
    | ok v => exact nomatch hmem
    | error e =>
      rw [List.mem_singleton.1 hmem] at hr
      cases hr

/-- The request of a task of a state was that of the task before the step, or has just come in from a session. -/
theorem request_back {cfg : Config} {s s' : System} {a : Action} {j : Nat} {t' : Task} {r : Request} (h : Stepped cfg s a s')
    (hj : s'.tasks[j]? = some t') (hr : t'.request = some r) :
    (∃ t, s.tasks[j]? = some t ∧ t.request = some r) ∨ r.userId ∈ s.world.sessions := by
  rcases task_back h hj with ⟨t, ht, hm⟩ | ⟨hnew, -⟩
  · exact Or.inl ⟨t, ht, hm.request.symm.trans hr⟩
  · obtain ⟨random, rfl, -⟩ := requested h hj hnew hr
    cases h with
    | request _ _ hs => exact Or.inr hs

/-- The world after a call. -/
theorem world_of_exec {cfg : Config} {s s' : System} {i pick : Nat} {ch : Choice} {t : Task}
    {aw : Await (Task × List Task)} (h : Stepped cfg s (.exec i pick ch) s') (ht : s.tasks[i]? = some t)
    (hn : t.next cfg pick = some aw) : s'.world = (aw.call.exec ch s.world).2 := by
  cases h with
  | exec ht' hn' =>
    rw [ht] at ht'
    cases ht'
    rw [hn] at hn'
    cases hn'
    exact (exec_world _ _ _).symm

/-- A request spawns one task, and issues the UUID it was given. -/
theorem request_adds {cfg : Config} {s s' : System} {r : Request} {random : Uuid} (h : Stepped cfg s (.request r random) s') :
    s'.tasks.length = s.tasks.length + 1 ∧ random ∈ s'.world.issued := by
  cases h with
  | request => exact ⟨List.length_append, List.mem_cons_self⟩

/-- A delivery spawns an attempt of the entry. -/
theorem deliver_spawns {cfg : Config} {s s' : System} {k : Nat} {job : BullJob} (h : Stepped cfg s (.deliver k) s')
    (hk : s.world.queue[k]? = some job) :
    s'.tasks[s.tasks.length]? = some (.attempt k job.payload (Attempt.start job.payload) false) := by
  cases h with
  | deliver hk' =>
    rw [hk] at hk'
    cases hk'
    exact List.getElem?_concat_length

/-- The world after a call that failed in transit. -/
theorem world_of_reject {cfg : Config} {s s' : System} {i pick : Nat} {e : Err} (h : Stepped cfg s (.reject i pick e) s') :
    s'.world = s.world := by
  cases h with
  | reject => rfl

/-! ## The tables, the bucket and the ids after a step -/

/-- Where a row of `files` comes from. -/
theorem files_step {cfg : Config} {s s' : System} {a : Action} {r' : FileRow} (h : Stepped cfg s a s')
    (hr : r' ∈ s'.world.db.files) :
    r' ∈ s.world.db.files ∨ ∃ i t ch e, Wrote s a i t ch e ∧
      ((∃ r ∈ s.world.db.files, FileWrite s.world.now e r r') ∨
        ∃ data, e = .createFile data ∧ r' = FileRepository.newRow s.world.now ch.id data ∧ ch.id ∉ s.world.issued ∧
          ch.id ∈ s'.world.issued ∧ ((Call.createFile data).exec ch s.world).1 = .ok r') := by
  cases h with
  | @exec i pick ch t aw ht hn => exact Or.inr ⟨i, t, ch, _, ⟨⟨pick, rfl⟩, ht, cfg, pick, aw, hn, rfl⟩, files_apply hr⟩
  | _ => exact Or.inl hr

/-- Where a row of `jobs` comes from. -/
theorem jobs_step {cfg : Config} {s s' : System} {a : Action} {r' : JobRow} (h : Stepped cfg s a s')
    (hr : r' ∈ s'.world.db.jobs) :
    r' ∈ s.world.db.jobs ∨ ∃ i t ch e, Wrote s a i t ch e ∧
      ((∃ r ∈ s.world.db.jobs, JobWrite s.world.now e r r') ∨
        ∃ data, e = .createJob data ∧ r' = JobRepository.newRow s.world.now ch.id data ∧ ch.id ∉ s.world.issued ∧
          ch.id ∈ s'.world.issued ∧ ∃ file ∈ s.world.db.files, file.id = data.fileId) := by
  cases h with
  | @exec i pick ch t aw ht hn => exact Or.inr ⟨i, t, ch, _, ⟨⟨pick, rfl⟩, ht, cfg, pick, aw, hn, rfl⟩, jobs_apply hr⟩
  | _ => exact Or.inl hr

/-- A step leaves the files and the jobs as they are, or a task makes its call. -/
theorem tables_step {cfg : Config} {s s' : System} {a : Action} (h : Stepped cfg s a s') :
    (s'.world.db.files = s.world.db.files ∧ s'.world.db.jobs = s.world.db.jobs) ∨
      ∃ i pick ch t aw, a = .exec i pick ch ∧ s.tasks[i]? = some t ∧ t.next cfg pick = some aw ∧
        s'.world = aw.call.effect.apply ch s.world := by
  cases h with
  | @exec i pick ch t aw ht hn => exact Or.inr ⟨i, pick, ch, t, aw, rfl, ht, hn, rfl⟩
  | _ => exact Or.inl ⟨rfl, rfl⟩

/-- A message is published by the call of a task, which writes nothing else. -/
theorem published_exec {cfg : Config} {s s' : System} {a : Action} {m : Message} (h : Stepped cfg s a s')
    (hp : s'.world.published = s.world.published ++ [m]) :
    ∃ i pick ch t aw, a = .exec i pick ch ∧ s.tasks[i]? = some t ∧ t.next cfg pick = some aw ∧
      aw.call.effect = .publish m ∧ s'.world = { s.world with published := s.world.published ++ [m] } := by
  have none (hs : s'.world.published = s.world.published) : False := by
    have hlen := congrArg List.length (hs.symm.trans hp)
    simp at hlen
  cases h with
  | @exec i pick ch t aw ht hn =>
    rcases published_apply ch s.world aw.call.effect with hs | ⟨m', he, hs⟩
    · exact (none hs).elim
    · obtain rfl : m' = m := by simpa using hs.symm.trans hp
      exact ⟨i, pick, ch, t, aw, rfl, ht, hn, he, by rw [System.resume, he]; rfl⟩
  | _ => exact (none rfl).elim

/-- Where the object under a key comes from. -/
theorem bucket_step {cfg : Config} {s s' : System} {a : Action} (h : Stepped cfg s a s') (key : String) :
    s'.world.bucket key = s.world.bucket key ∨
      (∃ policy, ∃ size : Nat, a = .upload policy size ∧ policy ∈ s.world.policies ∧ policy.minLength ≤ size ∧
        size ≤ policy.maxLength ∧ policy.key = key ∧ s'.world.bucket key = some ⟨size⟩) ∨
      ∃ i t ch e, Wrote s a i t ch e ∧ ((∃ size, e = .putObject key size ∧ s'.world.bucket key = some ⟨size⟩) ∨
        (e = .removeObject key ∧ s'.world.bucket key = none)) := by
  cases h with
  | @exec i pick ch t aw ht hn =>
    rcases bucket_apply ch s.world aw.call.effect key with h | h
    · exact Or.inl h
    · exact Or.inr (Or.inr ⟨i, t, ch, _, ⟨⟨pick, rfl⟩, ht, cfg, pick, aw, hn, rfl⟩, h⟩)
  | upload policy size hp hmin hmax =>
    by_cases hk : key = policy.key
    · refine Or.inr (Or.inl ⟨policy, size, rfl, hp, hmin, hmax, hk.symm, ?_⟩)
      simp [World.setObject, hk]
    · exact Or.inl (by simp [World.setObject, hk])
  | _ => exact Or.inl rfl

/-- Where a signed policy comes from. -/
theorem policies_step {cfg : Config} {s s' : System} {a : Action} {policy : PostPolicy} (h : Stepped cfg s a s')
    (hp : policy ∈ s'.world.policies) :
    policy ∈ s.world.policies ∨ ∃ i t ch, Wrote s a i t ch (.presign policy) := by
  cases h with
  | @exec i pick ch t aw ht hn =>
    rcases policies_apply hp with h | h
    · exact Or.inl h
    · exact Or.inr ⟨i, t, ch, ⟨pick, rfl⟩, ht, cfg, pick, aw, hn, h⟩
  | _ => exact Or.inl hp

/-- An id stays issued. -/
theorem issued_step {cfg : Config} {s s' : System} {a : Action} {id : Uuid} (h : Stepped cfg s a s')
    (hi : id ∈ s.world.issued) : id ∈ s'.world.issued := by
  cases h with
  | exec ht hn => exact issued_apply hi
  | request | guestSession | register => exact List.mem_cons_of_mem _ hi
  | _ => exact hi

/-! ## The queue after a step -/

/-- What an entry of the queue becomes in a step. An entry that stays is not locked by an attempt that settles. -/
inductive EntryMoves (s : System) (a : Action) (k : Nat) : BullJob → BullJob → Prop where
  | stays (job : BullJob)
      (hl : ∀ {i data p}, a = .settle i → s.tasks[i]? = some (.attempt k data p false) → job.state ≠ .active i) :
      EntryMoves s a k job job
  | delivered {job} (ha : a = .deliver k) (hw : job.state = .waiting) :
      EntryMoves s a k job { job with state := .active s.tasks.length }
  | stalled {job i} (ha : a = .stall k) (hs : job.state = .active i) : EntryMoves s a k job { job with state := .waiting }
  | finished {job i data p} (ha : a = .settle i) (ht : s.tasks[i]? = some (.attempt k data p false))
      (ho : p.outcome = some (.ok ())) (hl : job.state = .active i) :
      EntryMoves s a k job { job with attemptsMade := job.attemptsMade + 1, state := .completed }
  | retries {job i data p e} (ha : a = .settle i) (ht : s.tasks[i]? = some (.attempt k data p false))
      (ho : p.outcome = some (.error e)) (hl : job.state = .active i) (hm : job.attemptsMade + 1 < attempts) :
      EntryMoves s a k job { job with attemptsMade := job.attemptsMade + 1, state := .waiting }
  | gaveUp {job i data p e} (ha : a = .settle i) (ht : s.tasks[i]? = some (.attempt k data p false))
      (ho : p.outcome = some (.error e)) (hl : job.state = .active i) (hm : attempts ≤ job.attemptsMade + 1) :
      EntryMoves s a k job { job with attemptsMade := job.attemptsMade + 1, state := .failed }

/-- The payload of an entry never changes. -/
theorem EntryMoves.payload {s : System} {a : Action} {k : Nat} {job job' : BullJob} (h : EntryMoves s a k job job') :
    job'.payload = job.payload := by
  cases h <;> rfl

/-- What an entry of the queue becomes. -/
theorem entry_forward {cfg : Config} {s s' : System} {a : Action} {k : Nat} {job : BullJob} (h : Stepped cfg s a s')
    (hk : s.world.queue[k]? = some job) : ∃ job', s'.world.queue[k]? = some job' ∧ EntryMoves s a k job job' := by
  have stays (hl : ∀ i, a ≠ .settle i) : EntryMoves s a k job job := .stays job (fun ha => absurd ha (hl _))
  have hlt : k < s.world.queue.length := (List.getElem?_eq_some_iff.1 hk).1
  cases h with
  | @exec i pick ch t aw ht hn =>
    refine ⟨job, ?_, stays (by nofun)⟩
    rcases queue_apply ch s.world aw.call.effect with h | ⟨payload, -, h⟩
    · exact (congrArg (·[k]?) h).trans hk
    · exact (congrArg (·[k]?) h).trans ((List.getElem?_append_left hlt).trans hk)
  | @deliver k₀ job₀ hk₀ hw =>
    by_cases hi : k = k₀
    · subst hi
      rw [hk] at hk₀
      cases hk₀
      exact ⟨_, List.getElem?_set_self hlt, .delivered rfl hw⟩
    · exact ⟨job, (List.getElem?_set_ne (Ne.symm hi)).trans hk, stays (by nofun)⟩
  | @stall k₀ i job₀ hk₀ ha =>
    by_cases hi : k = k₀
    · subst hi
      rw [hk] at hk₀
      cases hk₀
      exact ⟨_, List.getElem?_set_self hlt, .stalled rfl ha⟩
    · exact ⟨job, (List.getElem?_set_ne (Ne.symm hi)).trans hk, stays (by nofun)⟩
  | @settle i k₀ data p outcome ht ho =>
    by_cases hi : k₀ = k
    · subst hi
      have hget : (s.world.queue.modify k₀ (BullJob.settle i outcome))[k₀]? = some (BullJob.settle i outcome job) := by
        rw [List.getElem?_modify_eq, hk]
        rfl
      refine ⟨_, hget, ?_⟩
      unfold BullJob.settle
      split
      · rename_i hl
        cases outcome with
        | ok v => exact .finished rfl ht ho hl
        | error e =>
          by_cases hm : job.attemptsMade + 1 < attempts
          · simp only [if_pos hm]
            exact .retries rfl ht ho hl hm
          · simp only [if_neg hm]
            exact .gaveUp rfl ht ho hl (by omega)
      · rename_i hl
        refine .stays job (fun ha _ => ?_)
        cases ha
        exact hl
    · refine ⟨job, (List.getElem?_modify_ne _ _ hi).trans hk, .stays job (fun ha ht' => ?_)⟩
      cases ha
      rw [ht] at ht'
      cases ht'
      exact absurd rfl hi
  | _ => exact ⟨job, hk, stays (by nofun)⟩

/-- Where an entry of the queue comes from: from the one that was there, or `create` added it. -/
theorem entry_back {cfg : Config} {s s' : System} {a : Action} {k : Nat} {job' : BullJob} (h : Stepped cfg s a s')
    (hk : s'.world.queue[k]? = some job') :
    (∃ job, s.world.queue[k]? = some job ∧ EntryMoves s a k job job') ∨
      ∃ i u f ty o row ch, k = s.world.queue.length ∧ (∃ pick, a = .exec i pick ch) ∧
        s.tasks[i]? = some (.createJob u f ty o (.add row)) ∧ job' = ⟨⟨row.id, f, ty, u, o⟩, 0, .waiting⟩ := by
  by_cases hlt : k < s.world.queue.length
  · obtain ⟨job₁, h1, hm⟩ := entry_forward h (List.getElem?_eq_getElem hlt)
    rw [hk] at h1
    cases h1
    exact Or.inl ⟨_, List.getElem?_eq_getElem hlt, hm⟩
  have hle : s.world.queue.length ≤ k := by omega
  have hnone : ¬ s.world.queue[k]? = some job' := fun h' => hlt (List.getElem?_eq_some_iff.1 h').1
  cases h with
  | @exec i pick ch t aw ht hn =>
    rcases queue_apply ch s.world aw.call.effect with h | ⟨payload, he, h⟩
    · exact absurd ((congrArg (·[k]?) h).symm.trans hk) hnone
    · have hk' := (congrArg (·[k]?) h).symm.trans hk
      have hlen : k = s.world.queue.length := by
        have := (List.getElem?_eq_some_iff.1 hk').1
        simp only [List.length_append, List.length_singleton] at this
        omega
      subst hlen
      simp only [List.getElem?_concat_length, Option.some.injEq] at hk'
      have hw : Wrote s (.exec i pick ch) i t ch (.queueAdd payload) := ⟨⟨pick, rfl⟩, ht, cfg, pick, aw, hn, he⟩
      obtain ⟨u, f, ty, o, row, rfl, rfl⟩ := job_enqueuer hw
      exact Or.inr ⟨i, u, f, ty, o, row, ch, rfl, ⟨pick, rfl⟩, ht, hk'.symm⟩
  | @deliver k₀ job₀ hk₀ hw =>
    have hlen := (List.getElem?_eq_some_iff.1 hk).1
    simp only [System.spawn, List.length_set] at hlen
    exact absurd hlen hlt
  | @stall k₀ i job₀ hk₀ ha =>
    have hlen := (List.getElem?_eq_some_iff.1 hk).1
    simp only [List.length_set] at hlen
    exact absurd hlen hlt
  | @settle i k₀ data p outcome ht ho =>
    have hlen := (List.getElem?_eq_some_iff.1 hk).1
    simp only [System.resume, List.length_modify] at hlen
    exact absurd hlen hlt
  | _ => exact absurd hk hnone

end FileProcessing
