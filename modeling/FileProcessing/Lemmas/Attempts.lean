import FileProcessing.Lemmas.Identity
import FileProcessing.Lemmas.Keys

/-!
# What attempts and listeners do to a job

Which task writes the status of a row and which creates a file, what an attempt that BullMQ has settled can still do (nothing),
and when a job is quiet: no attempt and no listener of it is left.
-/

namespace FileProcessing

variable {cfg : Config} {ok : System → Action → Prop} {s s' : System} {a : Action}

/-! ## Attempts that have ended -/

/-- An attempt that has ended makes no call. -/
theorem next_of_outcome {data : JobPayload} {p : Attempt} {o : Except Err Unit} (pick : Nat) (h : p.outcome = some o) :
    p.next data pick = none := by
  cases p with
  | compress p => cases p <;> first | rfl | cases h
  | convert p => cases p <;> first | rfl | cases h
  | default p => cases p <;> first | rfl | cases h

/-- BullMQ settles attempts that have ended. -/
def SettledEnded (s : System) : Prop :=
  ∀ (i k : Nat) data p, s.tasks[i]? = some (.attempt k data p true) → ∃ o, p.outcome = some o

/-- A step keeps them so: an attempt that has ended makes no call. -/
theorem settledEnded_step (h : Stepped cfg s a s') (hI : SettledEnded s) : SettledEnded s' := by
  intro i k data p hi
  rcases task_back h hi with ⟨t, ht, hm⟩ | ⟨-, hsp⟩
  · cases hm with
    | waits => exact hI _ _ _ _ ht
    | attempt hn =>
      obtain ⟨o, ho⟩ := hI _ _ _ _ ht
      rw [next_of_outcome _ ho] at hn
      cases hn
    | settled ho => exact ⟨_, ho⟩
  · cases hsp

/-- In every reachable state a settled attempt has ended. -/
theorem settledEnded (h : (platform cfg).Reach ok s) : SettledEnded s := by
  refine h.invariant ?_ (fun s a s' _ hI _ hs => settledEnded_step (step_cases hs) hI)
  rintro s rfl i k data p hi
  cases hi

/-- An attempt that writes is unsettled. -/
theorem unsettled_of_wrote (h : (platform cfg).Reach ok s) {i k : Nat} {data : JobPayload} {p : Attempt} {b : Bool}
    {ch : Choice} {e : Effect} (hw : Wrote s a i (.attempt k data p b) ch e) (he : e ≠ .none) :
    b = false ∧ StageCall data (p.stage data) e := by
  cases hw.writes with
  | nothing => exact absurd rfl he
  | attempt _ _ _ _ _ hc =>
    refine ⟨?_, hc⟩
    cases b with
    | false => rfl
    | true =>
      obtain ⟨o, ho⟩ := settledEnded h _ _ _ _ hw.task
      rcases outcome_eq (d := data) ho with ⟨out, hst, -⟩ | ⟨err, hst, -⟩ <;> rw [hst] at hc <;> cases hc

/-! ## Attempts that are left -/

/-- A job that waits or runs has an attempt left. -/
def AttemptsLeft (s : System) : Prop :=
  ∀ (k : Nat) job, s.world.queue[k]? = some job → (job.state = .waiting ∨ ∃ i, job.state = .active i) → job.attemptsMade < attempts

theorem attemptsLeft_step (h : Stepped cfg s a s') (hI : AttemptsLeft s) : AttemptsLeft s' := by
  intro k job' hk hst
  rcases entry_back h hk with ⟨job, hk₀, hm⟩ | ⟨_, _, _, _, _, _, _, -, -, -, rfl⟩
  · cases hm with
    | stays => exact hI k _ hk₀ hst
    | delivered ha hw => exact (hI k _ hk₀ (Or.inl hw) :)
    | stalled ha hs => exact (hI k _ hk₀ (Or.inr ⟨_, hs⟩) :)
    | retries _ _ _ _ hm => exact hm
    | finished | gaveUp => rcases hst with hst | ⟨i, hst⟩ <;> cases hst
  · exact Nat.succ_pos 2

theorem attemptsLeft (h : (platform cfg).Reach ok s) : AttemptsLeft s := by
  refine h.invariant (fun s h0 => ?_) (fun s a s' _ hI _ hs => attemptsLeft_step (step_cases hs) hI)
  subst h0
  intro k job hk
  cases hk

/-! ## Who writes what -/

/-- The writer of a status: an attempt that starts or completes, or a listener. -/
theorem status_writer (h : (platform cfg).Reach ok s) {i : Nat} {t : Task} {ch : Choice} {j : Uuid} {st : JobStatus}
    {ex : JobExtra} (hw : Wrote s a i t ch (.updateStatus j st ex)) :
    (∃ k data p, t = .attempt k data p false ∧ data.jobId = j ∧
      ((p.stage data = .starting ∧ st = .active) ∨ ∃ o, p.stage data = .completing o ∧ st = .completed)) ∨
    ∃ m, t = .failedListener j m .updateStatus ∧ st = .failed := by
  cases hw.writes with
  | listenerUpdate _ m => exact Or.inr ⟨m, rfl, rfl⟩
  | attempt k data p b _ hc =>
    obtain ⟨rfl, -⟩ := unsettled_of_wrote h hw (by nofun)
    refine Or.inl ⟨k, data, p, rfl, ?_⟩
    generalize hg : p.stage data = g at hc
    cases hc with
    | start => exact ⟨rfl, Or.inl ⟨rfl, rfl⟩⟩
    | complete o => exact ⟨rfl, Or.inr ⟨o, rfl, rfl⟩⟩

/-- The rows of an update that was not rejected. -/
theorem updated_rows {jobId : Uuid} {α : Type} {c : Call α} {st : JobStatus} {ex : JobExtra} (he : c.effect = .updateStatus jobId st ex) {ch : Choice}
    {w : World} {v : α} (hx : (c.exec ch w).1 = .ok v) {row : JobRow} (hrow : row ∈ (c.exec ch w).2.db.jobs) (hid : row.id = jobId) :
    row.status = st := by
  cases c with
  | updateStatus j status extra =>
    cases he
    rcases updateStatus_cases ch w jobId st ex with ⟨-, e, hrej⟩ | ⟨found, hupd⟩
    · rw [hrej] at hx
      cases hx
    · rw [hupd] at hrow
      replace hrow : row ∈ w.db.jobs.update (fun job => job.id = jobId) (JobRepository.setStatus w.now st ex)
        (JobRepository.setStatus_id _ _ _) := hrow
      obtain ⟨old, -, rfl⟩ := Table.mem_update.1 hrow
      split at hid
      · rename_i hp
        rw [if_pos hp]
        rfl
      · rename_i hp
        simp [hid] at hp
  | _ => cases he

/-- The creator of a file: an upload that reserves its key, or an attempt that has stored its output. -/
theorem file_writer (h : (platform cfg).Reach ok s) {i : Nat} {t : Task} {ch : Choice} {file : NewFile}
    (hw : Wrote s a i t ch (.createFile file)) :
    (∃ u input key, t = .createUploadUrl u input (.create key) ∧ file = ⟨u, input.filename, input.mimeType, input.size, key, .pending⟩) ∨
    ∃ k data p, t = .attempt k data p false ∧ p.stage data = .storing file := by
  cases hw.writes with
  | createFile u input key => exact Or.inl ⟨u, input, key, rfl, rfl⟩
  | attempt k data p b _ hc =>
    obtain ⟨rfl, -⟩ := unsettled_of_wrote h hw (by nofun)
    refine Or.inr ⟨k, data, p, rfl, ?_⟩
    generalize hg : p.stage data = g at hc
    cases hc
    rfl

/-- The row of an output that waits to be inserted is under a key of the job. -/
theorem outputKey_of_storing {data : JobPayload} {p : Attempt} {file : NewFile} (h : p.stage data = .storing file) :
    IsOutputKey file.storagePath data.jobId := by
  obtain ⟨-, -, name, hn⟩ := isOutput_of_stage h
  exact ⟨data.userId, name, hn⟩

/-- `createUploadUrl` never comes back to its insert. -/
theorem createUploadUrl_create {u : Uuid} {input : FileService.CreateUploadUrlInput} {key : String} {i : Nat} {t : Task}
    (hm : TaskMoves cfg s a i t (.createUploadUrl u input (.create key))) :
    t = .createUploadUrl u input (.create key) ∧ a.actor ≠ some i := by
  cases hm with
  | waits _ hw => exact ⟨rfl, hw⟩
  | @createUploadUrl _ _ p _ aw r _ hn hr he =>
    cases p <;> cases hn <;> cases r <;> cases he

/-- The insert of an upload is of a key for the UUID drawn by its request. -/
theorem createUploadUrl_start {u : Uuid} {input : FileService.CreateUploadUrlInput} {key : String} {random : Uuid}
    (h : FileService.createUploadUrl.start cfg u input random = .create key) : key = uploadKey u random (extname input.filename) := by
  unfold FileService.createUploadUrl.start at h
  split at h
  · cases h
  · split at h
    · cases h
    · exact (FileService.CreateUploadUrl.create.inj h).symm

/-- An upload that is about to be inserted has a key for an issued UUID, which no other such upload has. -/
structure UploadsKeyed (s : System) : Prop where
  issued : ∀ {i : Nat} {u input key}, s.tasks[i]? = some (.createUploadUrl u input (.create key)) →
    ∃ r ∈ s.world.issued, IsUploadKey key r
  unique : ∀ {i j : Nat} {u input key u' input' key' r}, s.tasks[i]? = some (.createUploadUrl u input (.create key)) →
    s.tasks[j]? = some (.createUploadUrl u' input' (.create key')) → IsUploadKey key r → IsUploadKey key' r → i = j

/-- A step keeps the keys of uploads apart. -/
theorem uploadsKeyed_step (h : Stepped cfg s a s') (hI : UploadsKeyed s) : UploadsKeyed s' where
  issued {i u input key} hi := by
    rcases task_back h hi with ⟨t, ht, hm⟩ | ⟨-, hsp⟩
    · obtain ⟨rfl, -⟩ := createUploadUrl_create hm
      obtain ⟨r, hr, hkey⟩ := hI.issued ht
      exact ⟨r, issued_step h hr, hkey⟩
    · cases hsp with
      | createUploadUrl random hi ha hp =>
        subst ha
        exact ⟨random, (request_adds h).2, u, _, createUploadUrl_start hp.symm⟩
  unique {i j u input key u' input' key' r} hi hj hkey hkey' := by
    have apart {i j : Nat} {u input key u' input' key' p t} (ht : s.tasks[i]? = some t)
        (hm : TaskMoves cfg s a i t (.createUploadUrl u input (.create key)))
        (hsp : Spawns cfg s a (.createUploadUrl u' input' p)) (hp : p = .create key') (hkey : IsUploadKey key r)
        (hkey' : IsUploadKey key' r) : i = j := by
      obtain ⟨rfl, -⟩ := createUploadUrl_create hm
      obtain ⟨r', hr', hkey₀⟩ := hI.issued ht
      cases hsp with
      | createUploadUrl random hn ha hp' =>
        have hr : r = random := hkey'.inj ⟨u', _, createUploadUrl_start (hp'.symm.trans hp)⟩
        rw [← hkey₀.inj hkey] at hr
        exact absurd (hr ▸ hr') hn
    rcases task_back h hi with ⟨t, ht, hm⟩ | ⟨hle, hsp⟩
    · rcases task_back h hj with ⟨t', ht', hm'⟩ | ⟨hle', hsp'⟩
      · obtain ⟨rfl, -⟩ := createUploadUrl_create hm
        obtain ⟨rfl, -⟩ := createUploadUrl_create hm'
        exact hI.unique ht ht' hkey hkey'
      · exact apart ht hm hsp' rfl hkey hkey'
    · rcases task_back h hj with ⟨t', ht', hm'⟩ | ⟨hle', hsp'⟩
      · exact (apart ht' hm' hsp rfl hkey' hkey : j = i).symm
      · cases hsp with
        | createUploadUrl random hn ha =>
          subst ha
          have hlen := (request_adds h).1
          have hi := (List.getElem?_eq_some_iff.1 hi).1
          have hj := (List.getElem?_eq_some_iff.1 hj).1
          omega

/-- In every reachable state the keys of uploads are apart. -/
theorem uploadsKeyed (h : (platform cfg).Reach ok s) : UploadsKeyed s := by
  refine h.invariant ?_ (fun s a s' _ hI _ hs => uploadsKeyed_step (step_cases hs) hI)
  rintro s rfl
  exact ⟨fun h => (nomatch h), fun h => (nomatch h)⟩

/-! ## Quiet jobs -/

/-- No attempt of the job is unsettled, and no listener of it has its update to make. -/
structure Quiet (s : System) (jobId : Uuid) : Prop where
  attempts : ∀ {i k : Nat} {data p}, s.tasks[i]? = some (.attempt k data p false) → data.jobId ≠ jobId
  listeners : ∀ {i : Nat} {m}, s.tasks[i]? ≠ some (.failedListener jobId m .updateStatus)

/-- A job stays quiet until it is delivered. -/
theorem quiet_step (h : Stepped cfg s a s') {jobId : Uuid} (hq : Quiet s jobId)
    (hd : ∀ {k : Nat} {job : BullJob}, a = .deliver k → s.world.queue[k]? = some job → job.payload.jobId ≠ jobId) :
    Quiet s' jobId where
  attempts {i k data p} hi := by
    rcases task_back h hi with ⟨t, ht, hm⟩ | ⟨-, hsp⟩
    · cases hm with
      | waits | attempt => exact hq.attempts ht
    · cases hsp with
      | attempt ha hk hw hdata hp => exact hdata ▸ hd ha hk
  listeners {i m} hi := by
    rcases task_back h hi with ⟨t, ht, hm⟩ | ⟨-, hsp⟩
    · cases hm with
      | waits => exact hq.listeners ht
      | @failedListener _ _ p _ aw r _ hn hr he =>
        cases p <;> cases hn <;> cases r <;> cases he
    · cases hsp with
      | failedListener ha ht ho hj hm => exact hq.attempts ht hj.symm

/-- While a job is quiet nothing sets its status but a cancellation, and no output of it is created. -/
theorem quiet_writes (h : (platform cfg).Reach ok s) {jobId : Uuid} (hq : Quiet s jobId) {i : Nat} {t : Task} {ch : Choice}
    {e : Effect} (hw : Wrote s a i t ch e) :
    (∀ st ex, e ≠ .updateStatus jobId st ex) ∧ ∀ file, e = .createFile file → ¬ IsOutputKey file.storagePath jobId := by
  refine ⟨?_, ?_⟩
  · rintro st ex rfl
    rcases status_writer h hw with ⟨k, data, p, rfl, hj, -⟩ | ⟨m, rfl, -⟩
    · exact hq.attempts hw.task hj
    · exact hq.listeners hw.task
  · rintro file rfl hkey
    rcases file_writer h hw with ⟨u, input, key, rfl, rfl⟩ | ⟨k, data, p, rfl, hst⟩
    · obtain ⟨r, -, hr⟩ := (uploadsKeyed h).issued hw.task
      exact hr.not_output hkey
    · exact hq.attempts hw.task ((outputKey_of_storing hst).inj hkey)

end FileProcessing
