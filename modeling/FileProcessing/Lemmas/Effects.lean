import FileProcessing.System

/-!
# What a call writes

A call reads, or is one of the writes below: `Call.effect` names the write and `Effect.apply` performs it, so that what a step
does to the world is known from the write alone (`exec_world`). For each table, `files_apply` and `jobs_apply` say where a row
of the table after a write comes from; `files_kept` says where a row of `files` before it went.
-/

namespace FileProcessing

/-- The writes of a call. -/
inductive Effect where
  | none
  | createFile (data : NewFile)
  | softDelete (userId fileId : Uuid)
  | markReady (userId fileId : Uuid)
  | hardDelete (userId fileId : Uuid)
  | createJob (data : NewJob)
  | updateStatus (jobId : Uuid) (status : JobStatus) (extra : JobExtra)
  | cancelJob (userId jobId : Uuid)
  | updateProgress (jobId : Uuid) (progress : Nat)
  | presign (policy : PostPolicy)
  | putObject (key : String) (size : Nat)
  | removeObject (key : String)
  | queueAdd (payload : JobPayload)
  | publish (message : Message)
  deriving DecidableEq, Repr

/-- The write of a call. -/
def Call.effect : {α : Type} → Call α → Effect
  | _, .createFile data => .createFile data
  | _, .softDelete userId fileId => .softDelete userId fileId
  | _, .markReady userId fileId => .markReady userId fileId
  | _, .hardDelete userId fileId => .hardDelete userId fileId
  | _, .createJob data => .createJob data
  | _, .updateStatus jobId status extra => .updateStatus jobId status extra
  | _, .cancelJob userId jobId => .cancelJob userId jobId
  | _, .updateProgress jobId progress => .updateProgress jobId progress
  | _, .presignedPostPolicy policy => .presign policy
  | _, .putObject key size => .putObject key size
  | _, .removeObject key => .removeObject key
  | _, .queueAdd payload => .queueAdd payload
  | _, .publish message => .publish message
  | _, _ => .none

/-- The world after a write. A rejected statement writes nothing. -/
def Effect.apply (ch : Choice) (w : World) : Effect → World
  | .none => w
  | .createFile data => ((Call.createFile data).exec ch w).2
  | .softDelete userId fileId => { w with db := (FileRepository.softDelete w.db w.now userId fileId).2 }
  | .markReady userId fileId => { w with db := (FileRepository.markReady w.db w.now userId fileId).2 }
  | .hardDelete userId fileId => { w with db := FileRepository.hardDelete w.db userId fileId }
  | .createJob data => ((Call.createJob data).exec ch w).2
  | .updateStatus jobId status extra => ((Call.updateStatus jobId status extra).exec ch w).2
  | .cancelJob userId jobId => { w with db := (JobRepository.cancel w.db w.now userId jobId).2 }
  | .updateProgress jobId progress => { w with db := JobRepository.updateProgress w.db w.now jobId progress }
  | .presign policy => { w with policies := policy :: w.policies }
  | .putObject key size => w.setObject key (some ⟨size⟩)
  | .removeObject key => w.setObject key Option.none
  | .queueAdd payload => { w with queue := w.queue ++ [⟨payload, 0, .waiting⟩] }
  | .publish message => { w with published := w.published ++ [message] }

/-- The world after a call is the world after its write. -/
theorem exec_world {α : Type} (c : Call α) (ch : Choice) (w : World) : (c.exec ch w).2 = c.effect.apply ch w := by
  cases c with
  | statObject key => simp only [Call.exec, Call.effect, Effect.apply]; split <;> rfl
  | getObject key => simp only [Call.exec, Call.effect, Effect.apply]; split <;> rfl
  | _ => rfl

/-! ## The three statements the database may reject -/

/-- An insert into `files` is rejected and does nothing, or appends the row under an id issued for it. -/
theorem createFile_inserts (ch : Choice) (w : World) (data : NewFile) :
    (∃ e, (Call.createFile data).exec ch w = (.error e, w)) ∨
      ∃ files, ch.id ∉ w.issued ∧ w.db.files.insert (FileRepository.newRow w.now ch.id data) = some files ∧
        (Call.createFile data).exec ch w =
          (.ok (FileRepository.newRow w.now ch.id data), { w with db := { w.db with files := files } }.issue ch.id) := by
  simp only [Call.exec]
  by_cases hi : ch.id ∈ w.issued
  · exact Or.inl ⟨rejected, by rw [if_pos hi]⟩
  rw [if_neg hi]
  rw [FileRepository.create_eq]
  by_cases hf : FileRepository.Kept (FileRepository.newRow w.now ch.id data)
  · cases hins : w.db.files.insert (FileRepository.newRow w.now ch.id data) with
    | none => exact Or.inl ⟨rejected, by rw [if_pos hf]; rfl⟩
    | some files => exact Or.inr ⟨files, hi, rfl, by rw [if_pos hf]; rfl⟩
  · exact Or.inl ⟨rejected, by rw [if_neg hf]⟩

/-- The rows of `files` after an insert that is not rejected. -/
theorem createFile_cases (ch : Choice) (w : World) (data : NewFile) :
    (∃ e, (Call.createFile data).exec ch w = (.error e, w)) ∨
      ∃ files, ch.id ∉ w.issued ∧ (∀ x, x ∈ files ↔ x ∈ w.db.files ∨ x = FileRepository.newRow w.now ch.id data) ∧
        (Call.createFile data).exec ch w =
          (.ok (FileRepository.newRow w.now ch.id data), { w with db := { w.db with files := files } }.issue ch.id) := by
  rcases createFile_inserts ch w data with he | ⟨files, hi, hins, he⟩
  · exact Or.inl he
  · exact Or.inr ⟨files, hi, Table.insert_eq_some hins, he⟩

/-- An insert into `jobs` is rejected and does nothing, or appends the row under an id issued for it; its file exists. -/
theorem createJob_inserts (ch : Choice) (w : World) (data : NewJob) :
    (∃ e, (Call.createJob data).exec ch w = (.error e, w)) ∨
      ∃ jobs, ch.id ∉ w.issued ∧ (∃ file ∈ w.db.files, file.id = data.fileId) ∧
        w.db.jobs.insert (JobRepository.newRow w.now ch.id data) = some jobs ∧
        (Call.createJob data).exec ch w =
          (.ok (JobRepository.newRow w.now ch.id data), { w with db := { w.db with jobs := jobs } }.issue ch.id) := by
  simp only [Call.exec]
  by_cases hi : ch.id ∈ w.issued
  · exact Or.inl ⟨rejected, by rw [if_pos hi]⟩
  rw [if_neg hi]
  rw [JobRepository.create_eq]
  by_cases hf : JobRepository.Kept (JobRepository.newRow w.now ch.id data) ∧
      w.db.files.rows.any (fun file => file.id = data.fileId) = true
  · have hfile : ∃ file ∈ w.db.files, file.id = data.fileId := by
      simp only [List.any_eq_true, decide_eq_true_eq] at hf
      exact hf.2
    cases hins : w.db.jobs.insert (JobRepository.newRow w.now ch.id data) with
    | none => exact Or.inl ⟨rejected, by rw [if_pos hf]; rfl⟩
    | some jobs => exact Or.inr ⟨jobs, hi, hfile, rfl, by rw [if_pos hf]; rfl⟩
  · exact Or.inl ⟨rejected, by rw [if_neg hf]⟩

/-- The rows of `jobs` after an insert that is not rejected. -/
theorem createJob_cases (ch : Choice) (w : World) (data : NewJob) :
    (∃ e, (Call.createJob data).exec ch w = (.error e, w)) ∨
      ∃ jobs, ch.id ∉ w.issued ∧ (∃ file ∈ w.db.files, file.id = data.fileId) ∧
        (∀ x, x ∈ jobs ↔ x ∈ w.db.jobs ∨ x = JobRepository.newRow w.now ch.id data) ∧
        (Call.createJob data).exec ch w =
          (.ok (JobRepository.newRow w.now ch.id data), { w with db := { w.db with jobs := jobs } }.issue ch.id) := by
  rcases createJob_inserts ch w data with he | ⟨jobs, hi, hfile, hins, he⟩
  · exact Or.inl he
  · exact Or.inr ⟨jobs, hi, hfile, Table.insert_eq_some hins, he⟩

/-- An update of a status is rejected and does nothing, or sets the row of the job; it is rejected only when there is a row and the
update refers to an output that is not a row of `files`. -/
theorem updateStatus_cases (ch : Choice) (w : World) (jobId : Uuid) (status : JobStatus) (extra : JobExtra) :
    (((∃ row ∈ w.db.jobs, row.id = jobId) ∧ JobRepository.outputExists w.db extra = false) ∧
      ∃ e, (Call.updateStatus jobId status extra).exec ch w = (.error e, w)) ∨
      ∃ row, (Call.updateStatus jobId status extra).exec ch w = (.ok row, { w with db := { w.db with
        jobs := w.db.jobs.update (fun job => job.id = jobId) (JobRepository.setStatus w.now status extra) (JobRepository.setStatus_id _ _ _) } }) := by
  simp only [Call.exec, JobRepository.updateStatus]
  by_cases hp : ((w.db.jobs.select (fun job => decide (job.id = jobId))).isEmpty || JobRepository.outputExists w.db extra) = true
  · exact Or.inr ⟨_, by rw [if_pos hp]⟩
  · refine Or.inl ⟨?_, rejected, by rw [if_neg hp]⟩
    rw [Bool.or_eq_true, not_or, List.isEmpty_iff] at hp
    obtain ⟨row, hrow⟩ := List.exists_mem_of_ne_nil _ hp.1
    obtain ⟨hmem, hid⟩ := Table.mem_select.1 hrow
    exact ⟨⟨row, hmem, of_decide_eq_true hid⟩, Bool.eq_false_iff.2 hp.2⟩

/-- A call that is rejected does nothing. -/
theorem exec_error {α : Type} {c : Call α} {ch : Choice} {w : World} {e : Err} (h : (c.exec ch w).1 = .error e) :
    (c.exec ch w).2 = w := by
  cases c with
  | createFile data =>
    rcases createFile_cases ch w data with ⟨e', he⟩ | ⟨files, -, -, he⟩
    · rw [he]
    · rw [he] at h
      cases h
  | createJob data =>
    rcases createJob_cases ch w data with ⟨e', he⟩ | ⟨jobs, -, -, -, he⟩
    · rw [he]
    · rw [he] at h
      cases h
  | updateStatus j st ex =>
    rcases updateStatus_cases ch w j st ex with ⟨-, e', he⟩ | ⟨row, he⟩
    · rw [he]
    · rw [he] at h
      cases h
  | statObject key =>
    simp only [Call.exec] at h ⊢
    split at h
    · rfl
    · cases h
  | getObject key =>
    simp only [Call.exec] at h ⊢
    split at h
    · rfl
    · cases h
  | _ => cases h

/-! ## The rows of `files` and `jobs` across a write -/

/-- What a write makes of a row of `files` that it does not delete. -/
inductive FileWrite (now : Time) : Effect → FileRow → FileRow → Prop where
  | same (e : Effect) (r : FileRow) : FileWrite now e r r
  | deleted (r : FileRow) : FileWrite now (.softDelete r.userId r.id) r { r with status := .deleted, updatedAt := now }
  | ready (r : FileRow) (hp : r.status = .pending) :
      FileWrite now (.markReady r.userId r.id) r { r with status := .ready, updatedAt := now }

/-- What a write makes of a row of `jobs` that it does not delete. -/
inductive JobWrite (now : Time) : Effect → JobRow → JobRow → Prop where
  | same (e : Effect) (r : JobRow) : JobWrite now e r r
  | cleared (userId fileId : Uuid) (r : JobRow) :
      JobWrite now (.hardDelete userId fileId) r { r with outputFileId := none }
  | progress (r : JobRow) (progress : Nat) :
      JobWrite now (.updateProgress r.id progress) r { r with progress := progress, updatedAt := now }
  | status (r : JobRow) (status : JobStatus) (extra : JobExtra) :
      JobWrite now (.updateStatus r.id status extra) r (JobRepository.setStatus now status extra r)
  | cancelled (r : JobRow) (hp : r.status = .pending) :
      JobWrite now (.cancelJob r.userId r.id) r
        { r with status := .failed, updatedAt := now, errorMessage := some "Cancelled by user" }

/-- A write never changes whose file a row is, nor where its object is and how long it is. -/
theorem FileWrite.core {now : Time} {e : Effect} {r r' : FileRow} (h : FileWrite now e r r') :
    r'.id = r.id ∧ r'.userId = r.userId ∧ r'.storagePath = r.storagePath ∧ r'.size = r.size := by
  cases h <;> exact ⟨rfl, rfl, rfl, rfl⟩

/-- A write never changes whose job a row is, nor its input and its type. -/
theorem JobWrite.core {now : Time} {e : Effect} {r r' : JobRow} (h : JobWrite now e r r') :
    r'.id = r.id ∧ r'.userId = r.userId ∧ r'.fileId = r.fileId ∧ r'.type = r.type := by
  cases h <;> exact ⟨rfl, rfl, rfl, rfl⟩

/-! ### What each `UPDATE` makes of a row, whether it selects the row or not -/

theorem softDelete_write (now : Time) (u f : Uuid) (r : FileRow) : FileWrite now (.softDelete u f) r
    (if FileRepository.owned u f r = true then { r with status := .deleted, updatedAt := now } else r) := by
  split
  · rename_i ho
    simp only [FileRepository.owned, Bool.and_eq_true, decide_eq_true_eq] at ho
    obtain ⟨rfl, rfl⟩ := ho
    exact .deleted r
  · exact .same _ _

theorem markReady_write (now : Time) (u f : Uuid) (r : FileRow) : FileWrite now (.markReady u f) r
    (if (FileRepository.owned u f r && decide (r.status = .pending)) = true then { r with status := .ready, updatedAt := now }
      else r) := by
  split
  · rename_i ho
    simp only [FileRepository.owned, Bool.and_eq_true, decide_eq_true_eq] at ho
    obtain ⟨⟨rfl, rfl⟩, hp⟩ := ho
    exact .ready r hp
  · exact .same _ _

theorem cancel_write (now : Time) (u j : Uuid) (r : JobRow) : JobWrite now (.cancelJob u j) r
    (if (JobRepository.owned u j r && decide (r.status = .pending)) = true then
      { r with status := .failed, updatedAt := now, errorMessage := some "Cancelled by user" } else r) := by
  split
  · rename_i ho
    simp only [JobRepository.owned, Bool.and_eq_true, decide_eq_true_eq] at ho
    obtain ⟨⟨rfl, rfl⟩, hp⟩ := ho
    exact .cancelled r hp
  · exact .same _ _

theorem progress_write (now : Time) (j : Uuid) (n : Nat) (r : JobRow) : JobWrite now (.updateProgress j n) r
    (if decide (r.id = j) = true then { r with progress := n, updatedAt := now } else r) := by
  split
  · rename_i hj
    exact of_decide_eq_true hj ▸ .progress r n
  · exact .same _ _

theorem status_write (now : Time) (j : Uuid) (st : JobStatus) (ex : JobExtra) (r : JobRow) : JobWrite now (.updateStatus j st ex) r
    (if decide (r.id = j) = true then JobRepository.setStatus now st ex r else r) := by
  split
  · rename_i hj
    exact of_decide_eq_true hj ▸ .status r st ex
  · exact .same _ _

/-! ### Where rows come from and where they go -/

/-- Where a row of `files` comes from: from the row it was before the write, or from an insert. -/
theorem files_apply {ch : Choice} {w : World} {e : Effect} {r' : FileRow} (h : r' ∈ (e.apply ch w).db.files) :
    (∃ r ∈ w.db.files, FileWrite w.now e r r') ∨
      ∃ data, e = .createFile data ∧ r' = FileRepository.newRow w.now ch.id data ∧ ch.id ∉ w.issued ∧
        ch.id ∈ (e.apply ch w).issued ∧ ((Call.createFile data).exec ch w).1 = .ok r' := by
  cases e with
  | createFile data =>
    rw [Effect.apply] at h
    rcases createFile_cases ch w data with ⟨e, he⟩ | ⟨files, hi, hmem, he⟩
    · rw [he] at h
      exact Or.inl ⟨r', h, .same _ _⟩
    · rw [he] at h
      rcases (hmem r').1 h with h | h
      · exact Or.inl ⟨r', h, .same _ _⟩
      · refine Or.inr ⟨data, rfl, h, hi, ?_, by rw [he, h]⟩
        rw [Effect.apply, he]
        exact List.mem_cons_self
  | softDelete u f =>
    simp only [Effect.apply, FileRepository.softDelete, Table.mem_update] at h
    obtain ⟨r, hr, rfl⟩ := h
    exact Or.inl ⟨r, hr, softDelete_write w.now u f r⟩
  | markReady u f =>
    simp only [Effect.apply, FileRepository.markReady, Table.mem_update] at h
    obtain ⟨r, hr, rfl⟩ := h
    exact Or.inl ⟨r, hr, markReady_write w.now u f r⟩
  | hardDelete u f => exact Or.inl ⟨r', (Table.mem_delete.1 h).1, .same _ _⟩
  | createJob data =>
    rw [Effect.apply] at h
    rcases createJob_cases ch w data with ⟨e, he⟩ | ⟨jobs, -, -, -, he⟩ <;> rw [he] at h <;>
      exact Or.inl ⟨r', h, .same _ _⟩
  | updateStatus j st ex =>
    rw [Effect.apply] at h
    rcases updateStatus_cases ch w j st ex with ⟨-, e, he⟩ | ⟨row, he⟩ <;> rw [he] at h <;>
      exact Or.inl ⟨r', h, .same _ _⟩
  | _ => exact Or.inl ⟨r', h, .same _ _⟩

/-- Where a row of `jobs` comes from: from the row it was before the write, or from an insert. -/
theorem jobs_apply {ch : Choice} {w : World} {e : Effect} {r' : JobRow} (h : r' ∈ (e.apply ch w).db.jobs) :
    (∃ r ∈ w.db.jobs, JobWrite w.now e r r') ∨
      ∃ data, e = .createJob data ∧ r' = JobRepository.newRow w.now ch.id data ∧ ch.id ∉ w.issued ∧
        ch.id ∈ (e.apply ch w).issued ∧ ∃ file ∈ w.db.files, file.id = data.fileId := by
  cases e with
  | createFile data =>
    rw [Effect.apply] at h
    rcases createFile_cases ch w data with ⟨e, he⟩ | ⟨files, -, -, he⟩ <;> rw [he] at h <;>
      exact Or.inl ⟨r', h, .same _ _⟩
  | hardDelete u f =>
    simp only [Effect.apply, FileRepository.hardDelete, Table.mem_update, Table.mem_delete, if_true] at h
    obtain ⟨r, ⟨hr, -⟩, rfl⟩ := h
    refine Or.inl ⟨r, hr, ?_⟩
    rw [FileRepository.clearOutput]
    split
    · exact .cleared u f r
    · exact .same _ _
  | createJob data =>
    rw [Effect.apply] at h
    rcases createJob_cases ch w data with ⟨e, he⟩ | ⟨jobs, hi, hfile, hmem, he⟩
    · rw [he] at h
      exact Or.inl ⟨r', h, .same _ _⟩
    · rw [he] at h
      rcases (hmem r').1 h with h | h
      · exact Or.inl ⟨r', h, .same _ _⟩
      · refine Or.inr ⟨data, rfl, h, hi, ?_, hfile⟩
        rw [Effect.apply, he]
        exact List.mem_cons_self
  | updateStatus j st ex =>
    rw [Effect.apply] at h
    rcases updateStatus_cases ch w j st ex with ⟨-, e, he⟩ | ⟨row, he⟩
    · rw [he] at h
      exact Or.inl ⟨r', h, .same _ _⟩
    · rw [he] at h
      replace h : r' ∈ w.db.jobs.update (fun job => job.id = j) (JobRepository.setStatus w.now st ex)
        (JobRepository.setStatus_id _ _ _) := h
      rw [Table.mem_update] at h
      obtain ⟨r, hr, rfl⟩ := h
      exact Or.inl ⟨r, hr, status_write w.now j st ex r⟩
  | cancelJob u j =>
    simp only [Effect.apply, JobRepository.cancel, Table.mem_update] at h
    obtain ⟨r, hr, rfl⟩ := h
    exact Or.inl ⟨r, hr, cancel_write w.now u j r⟩
  | updateProgress j n =>
    simp only [Effect.apply, JobRepository.updateProgress, Table.mem_update] at h
    obtain ⟨r, hr, rfl⟩ := h
    exact Or.inl ⟨r, hr, progress_write w.now j n r⟩
  | _ => exact Or.inl ⟨r', h, .same _ _⟩

/-- Where a row of `files` goes: it is still there, as the write leaves it, unless it is deleted for good. -/
theorem files_kept {w : World} (ch : Choice) (e : Effect) {r : FileRow} (h : r ∈ w.db.files) :
    (∃ r' ∈ (e.apply ch w).db.files, FileWrite w.now e r r') ∨ e = .hardDelete r.userId r.id := by
  cases e with
  | createFile data =>
    refine Or.inl ⟨r, ?_, .same _ _⟩
    rw [Effect.apply]
    rcases createFile_cases ch w data with ⟨e, he⟩ | ⟨files, -, hmem, he⟩ <;> rw [he]
    · exact h
    · exact (hmem r).2 (Or.inl h)
  | softDelete u f =>
    refine Or.inl ?_
    simp only [Effect.apply, FileRepository.softDelete, Table.mem_update]
    exact ⟨_, ⟨r, h, rfl⟩, softDelete_write w.now u f r⟩
  | markReady u f =>
    refine Or.inl ?_
    simp only [Effect.apply, FileRepository.markReady, Table.mem_update]
    exact ⟨_, ⟨r, h, rfl⟩, markReady_write w.now u f r⟩
  | hardDelete u f =>
    by_cases ho : FileRepository.owned u f r = true
    · simp only [FileRepository.owned, Bool.and_eq_true, decide_eq_true_eq] at ho
      obtain ⟨rfl, rfl⟩ := ho
      exact Or.inr rfl
    · exact Or.inl ⟨r, Table.mem_delete.2 ⟨h, Bool.eq_false_iff.2 ho⟩, .same _ _⟩
  | createJob data =>
    refine Or.inl ⟨r, ?_, .same _ _⟩
    rw [Effect.apply]
    rcases createJob_cases ch w data with ⟨e, he⟩ | ⟨jobs, -, -, -, he⟩ <;> rw [he] <;> exact h
  | updateStatus j st ex =>
    refine Or.inl ⟨r, ?_, .same _ _⟩
    rw [Effect.apply]
    rcases updateStatus_cases ch w j st ex with ⟨-, e, he⟩ | ⟨row, he⟩ <;> rw [he] <;> exact h
  | _ => exact Or.inl ⟨r, h, .same _ _⟩

/-- Where a row of `jobs` goes: it is still there, as the write leaves it, unless a file is deleted for good. -/
theorem jobs_kept {w : World} (ch : Choice) (e : Effect) {r : JobRow} (h : r ∈ w.db.jobs) :
    (∃ r' ∈ (e.apply ch w).db.jobs, JobWrite w.now e r r') ∨ ∃ u f, e = .hardDelete u f := by
  cases e with
  | createFile data =>
    refine Or.inl ⟨r, ?_, .same _ _⟩
    rw [Effect.apply]
    rcases createFile_cases ch w data with ⟨e, he⟩ | ⟨files, -, -, he⟩ <;> rw [he] <;> exact h
  | hardDelete u f => exact Or.inr ⟨u, f, rfl⟩
  | createJob data =>
    refine Or.inl ⟨r, ?_, .same _ _⟩
    rw [Effect.apply]
    rcases createJob_cases ch w data with ⟨e, he⟩ | ⟨jobs, -, -, hmem, he⟩ <;> rw [he]
    · exact h
    · exact (hmem r).2 (Or.inl h)
  | updateStatus j st ex =>
    refine Or.inl ?_
    rw [Effect.apply]
    rcases updateStatus_cases ch w j st ex with ⟨-, e, he⟩ | ⟨row, he⟩ <;> rw [he]
    · exact ⟨r, h, .same _ _⟩
    · have hmem : (if decide (r.id = j) = true then JobRepository.setStatus w.now st ex r else r) ∈
          w.db.jobs.update (fun job => job.id = j) (JobRepository.setStatus w.now st ex) (JobRepository.setStatus_id _ _ _) :=
        Table.mem_update.2 ⟨r, h, rfl⟩
      exact ⟨_, hmem, status_write w.now j st ex r⟩
  | cancelJob u j =>
    refine Or.inl ?_
    simp only [Effect.apply, JobRepository.cancel, Table.mem_update]
    exact ⟨_, ⟨r, h, rfl⟩, cancel_write w.now u j r⟩
  | updateProgress j n =>
    refine Or.inl ?_
    simp only [Effect.apply, JobRepository.updateProgress, Table.mem_update]
    exact ⟨_, ⟨r, h, rfl⟩, progress_write w.now j n r⟩
  | _ => exact Or.inl ⟨r, h, .same _ _⟩

/-- A hard delete leaves a row of `jobs` alone that refers to the file neither as its input nor as its output. -/
theorem job_outlives {db : Db} {u f : Uuid} {r : JobRow} (h : r ∈ db.jobs) (hin : r.fileId ≠ f) (hout : r.outputFileId ≠ some f) :
    r ∈ (FileRepository.hardDelete db u f).jobs := by
  simp only [FileRepository.hardDelete, Table.mem_update, Table.mem_delete, if_true]
  refine ⟨r, ⟨h, ?_⟩, ?_⟩
  · simp only [List.any_eq_false, FileRepository.owned, Bool.and_eq_true, decide_eq_true_eq]
    rintro file - ⟨⟨hf, -⟩, he⟩
    exact hin (he.trans hf)
  · unfold FileRepository.clearOutput
    split
    · rename_i hany
      simp only [List.any_eq_true, FileRepository.owned, Bool.and_eq_true, decide_eq_true_eq] at hany
      obtain ⟨file, -, ⟨hf, -⟩, he⟩ := hany
      exact absurd (hf ▸ he) hout
    · rfl

/-- An update of a status sets the row of the job, unless it refers to an output that is not a row of `files`. -/
theorem updateStatus_sets (ch : Choice) {w : World} {j : Uuid} {st : JobStatus} {ex : JobExtra} {r : JobRow} (h : r ∈ w.db.jobs)
    (hid : r.id = j) (hex : JobRepository.outputExists w.db ex = true) :
    JobRepository.setStatus w.now st ex r ∈ ((Effect.updateStatus j st ex).apply ch w).db.jobs := by
  rw [Effect.apply]
  rcases updateStatus_cases ch w j st ex with ⟨⟨-, hno⟩, -⟩ | ⟨row, he⟩
  · rw [hex] at hno
    cases hno
  · rw [he]
    have hmem : JobRepository.setStatus w.now st ex r ∈
        w.db.jobs.update (fun job => job.id = j) (JobRepository.setStatus w.now st ex) (JobRepository.setStatus_id _ _ _) :=
      Table.mem_update.2 ⟨r, h, by simp [hid]⟩
    exact hmem

/-- An update of a row that refers to an output that is not a row of `files` does nothing. -/
theorem updateStatus_rejected (ch : Choice) {w : World} {j : Uuid} {st : JobStatus} {ex : JobExtra}
    (h : ∃ r ∈ w.db.jobs, r.id = j) (hex : JobRepository.outputExists w.db ex = false) :
    (Effect.updateStatus j st ex).apply ch w = w := by
  obtain ⟨r, hr, hid⟩ := h
  have hsome : (w.db.jobs.select (fun job => decide (job.id = j))).isEmpty = false := by
    rw [List.isEmpty_eq_false_iff]
    exact List.ne_nil_of_mem (Table.mem_select.2 ⟨hr, decide_eq_true hid⟩)
  simp [Effect.apply, Call.exec, JobRepository.updateStatus, hex, hsome]

/-- An update of a row that takes effect refers to an output that is a row of `files`. -/
theorem output_of_updateStatus {ch : Choice} {w : World} {j : Uuid} {st : JobStatus} {ex : JobExtra} {o : Uuid} {r r' : JobRow}
    (hr : r ∈ w.db.jobs) (hid : r.id = j) (hr' : r' ∈ ((Effect.updateStatus j st ex).apply ch w).db.jobs) (hnew : r' ∉ w.db.jobs)
    (ho : ex.outputFileId = some o) : ∃ file ∈ w.db.files, file.id = o := by
  by_contra hno
  have hex : JobRepository.outputExists w.db ex = false := by
    simp only [JobRepository.outputExists, ho, List.any_eq_false, decide_eq_true_eq]
    exact fun file hfile he => hno ⟨file, hfile, he⟩
  have hsome : (w.db.jobs.select (fun job => decide (job.id = j))).isEmpty = false := by
    rw [List.isEmpty_eq_false_iff]
    exact List.ne_nil_of_mem (Table.mem_select.2 ⟨hr, decide_eq_true hid⟩)
  simp only [Effect.apply, Call.exec, JobRepository.updateStatus, hex, hsome, Bool.or_self] at hr'
  exact hnew hr'

/-! ## What the statements read, and the rows they are sure to change -/

/-- `findById` of a file finds a row of the owner. -/
theorem findFile_some {db : Db} {userId fileId : Uuid} {file : FileRow}
    (h : FileRepository.findById db userId fileId = some file) : file ∈ db.files ∧ file.id = fileId ∧ file.userId = userId := by
  have hmem := Table.mem_select.1 (List.mem_of_mem_head? (Option.mem_def.2 h))
  simpa [FileRepository.owned] using hmem

/-- The row of an id is found. -/
theorem findFile_eq {db : Db} {file : FileRow} (h : file ∈ db.files) : FileRepository.findById db file.userId file.id = some file :=
  Table.head?_select h (by simp [FileRepository.owned]) (by simp [FileRepository.owned]; tauto)

/-- `findById` of a job finds a row of the owner. -/
theorem findJob_some {db : Db} {userId jobId : Uuid} {job : JobRow}
    (h : JobRepository.findById db userId jobId = some job) : job ∈ db.jobs ∧ job.id = jobId ∧ job.userId = userId := by
  have hmem := Table.mem_select.1 (List.mem_of_mem_head? (Option.mem_def.2 h))
  simpa [JobRepository.owned] using hmem

/-- After `cancel` no row of the job is pending. -/
theorem cancel_rows {ch : Choice} {w : World} {userId jobId : Uuid} {r : JobRow}
    (h : r ∈ ((Effect.cancelJob userId jobId).apply ch w).db.jobs) (hid : r.id = jobId) (hu : r.userId = userId) :
    r.status ≠ .pending := by
  simp only [Effect.apply, JobRepository.cancel, Table.mem_update] at h
  obtain ⟨r₀, -, rfl⟩ := h
  split at hid
  · rename_i hp
    rw [if_pos hp]
    intro hpend
    cases hpend
  · rename_i hp
    rw [if_neg hp] at hu ⊢
    intro hpend
    simp [JobRepository.owned, hid, hu, hpend] at hp

/-- `markReady` returns the row it made ready, which was pending. -/
theorem markReady_some {db : Db} {now : Time} {userId fileId : Uuid} {file : FileRow}
    (h : (FileRepository.markReady db now userId fileId).1 = some file) :
    ∃ old ∈ db.files, old.id = fileId ∧ old.userId = userId ∧ old.status = .pending ∧
      file = { old with status := .ready, updatedAt := now } := by
  obtain ⟨old, hold, rfl⟩ := Option.map_eq_some_iff.1 h
  obtain ⟨hmem, hp⟩ := Table.mem_select.1 (List.mem_of_mem_head? (Option.mem_def.2 hold))
  simp only [FileRepository.owned, Bool.and_eq_true, decide_eq_true_eq] at hp
  exact ⟨old, hmem, hp.1.1, hp.1.2, hp.2, rfl⟩

/-- The guarded update returns the row when it is pending. -/
theorem markReady_eq {db : Db} (now : Time) {file : FileRow} (h : file ∈ db.files) (hp : file.status = .pending) :
    (FileRepository.markReady db now file.userId file.id).1 = some { file with status := .ready, updatedAt := now } := by
  have hhead : (db.files.select (fun x => FileRepository.owned file.userId file.id x && x.status = .pending)).head? = some file :=
    Table.head?_select h (by simp [FileRepository.owned, hp]) (by simp [FileRepository.owned]; tauto)
  simp [FileRepository.markReady, hhead]

/-- The guarded update returns nothing when the row is not pending. -/
theorem markReady_none {db : Db} (now : Time) {file : FileRow} (h : file ∈ db.files) (hp : file.status ≠ .pending) :
    (FileRepository.markReady db now file.userId file.id).1 = none := by
  cases hr : (FileRepository.markReady db now file.userId file.id).1 with
  | none => rfl
  | some updated =>
    obtain ⟨old, hold, hid, -, hpend, -⟩ := markReady_some hr
    rw [db.files.eq_of_key_eq hold h hid] at hpend
    exact absurd hpend hp

/-- After `markReady` no row of the file is pending. -/
theorem markReady_rows {ch : Choice} {w : World} {userId fileId : Uuid} {r : FileRow}
    (h : r ∈ ((Effect.markReady userId fileId).apply ch w).db.files) (hid : r.id = fileId) (hu : r.userId = userId) :
    r.status ≠ .pending := by
  simp only [Effect.apply, FileRepository.markReady, Table.mem_update] at h
  obtain ⟨r₀, -, rfl⟩ := h
  split at hid
  · rename_i hp
    rw [if_pos hp]
    intro hpend
    cases hpend
  · rename_i hp
    rw [if_neg hp] at hu ⊢
    intro hpend
    simp [FileRepository.owned, hid, hu, hpend] at hp

/-- After `softDelete` the row of the file is deleted. -/
theorem softDelete_rows {ch : Choice} {w : World} {userId fileId : Uuid} {r : FileRow}
    (h : r ∈ ((Effect.softDelete userId fileId).apply ch w).db.files) (hid : r.id = fileId) (hu : r.userId = userId) :
    r.status = .deleted := by
  simp only [Effect.apply, FileRepository.softDelete, Table.mem_update] at h
  obtain ⟨r₀, -, rfl⟩ := h
  split at hid
  · rename_i hp
    rw [if_pos hp]
  · rename_i hp
    rw [if_neg hp] at hu
    simp [FileRepository.owned, hid, hu] at hp

/-- After `hardDelete` the file has no row. -/
theorem hardDelete_rows {ch : Choice} {w : World} {userId fileId : Uuid} {r : FileRow}
    (h : r ∈ ((Effect.hardDelete userId fileId).apply ch w).db.files) (hid : r.id = fileId) : r.userId ≠ userId := by
  intro hu
  have hp := (Table.mem_delete.1 h).2
  simp [FileRepository.owned, hid, hu] at hp

/-- After an update that does not refer to an output every row of the job has the status. -/
theorem updateStatus_rows {ch : Choice} {w : World} {jobId : Uuid} {status : JobStatus} {extra : JobExtra} {r : JobRow}
    (h : r ∈ ((Effect.updateStatus jobId status extra).apply ch w).db.jobs) (hid : r.id = jobId)
    (hex : JobRepository.outputExists w.db extra = true) : r.status = status := by
  rw [Effect.apply] at h
  rcases updateStatus_cases ch w jobId status extra with ⟨⟨-, hno⟩, -⟩ | ⟨row, he⟩
  · rw [hex] at hno
    cases hno
  · rw [he] at h
    replace h : r ∈ w.db.jobs.update (fun job => job.id = jobId) (JobRepository.setStatus w.now status extra)
        (JobRepository.setStatus_id _ _ _) := h
    rw [Table.mem_update] at h
    obtain ⟨r₀, -, rfl⟩ := h
    split at hid
    · rename_i hp
      rw [if_pos hp]
      rfl
    · rename_i hp
      simp [hid] at hp

/-! ## What a write leaves alone -/

/-- A write to the bucket, the queue, the channels or the policies. -/
def Effect.outside : Effect → Bool
  | .presign _ | .putObject _ _ | .removeObject _ | .queueAdd _ | .publish _ => true
  | _ => false

/-- A statement of the database changes `db` and, when it inserts, `issued`, which only grows; it never changes `users`. -/
theorem statement_apply (ch : Choice) (w : World) (e : Effect) (h : e.outside = false) :
    ∃ db issued, e.apply ch w = { w with db := db, issued := issued } ∧ db.users = w.db.users ∧
      ∀ id ∈ w.issued, id ∈ issued := by
  cases e with
  | createFile data =>
    rw [Effect.apply]
    rcases createFile_cases ch w data with ⟨e, he⟩ | ⟨files, -, -, he⟩ <;> rw [he]
    · exact ⟨_, _, rfl, rfl, fun _ h => h⟩
    · exact ⟨_, _, rfl, rfl, fun _ h => List.mem_cons_of_mem _ h⟩
  | createJob data =>
    rw [Effect.apply]
    rcases createJob_cases ch w data with ⟨e, he⟩ | ⟨jobs, -, -, -, he⟩ <;> rw [he]
    · exact ⟨_, _, rfl, rfl, fun _ h => h⟩
    · exact ⟨_, _, rfl, rfl, fun _ h => List.mem_cons_of_mem _ h⟩
  | updateStatus j st ex =>
    rw [Effect.apply]
    rcases updateStatus_cases ch w j st ex with ⟨-, e, he⟩ | ⟨row, he⟩ <;> rw [he] <;>
      exact ⟨_, _, rfl, rfl, fun _ h => h⟩
  | presign _ | putObject _ _ | removeObject _ | queueAdd _ | publish _ => cases h
  | _ => exact ⟨_, _, rfl, rfl, fun _ h => h⟩

/-- No write takes back an id. -/
theorem issued_apply {ch : Choice} {w : World} {e : Effect} {id : Uuid} (h : id ∈ w.issued) :
    id ∈ (e.apply ch w).issued := by
  cases ho : e.outside with
  | true => cases e <;> first | exact h | cases ho
  | false =>
    obtain ⟨db, issued, he, -, hi⟩ := statement_apply ch w e ho
    rw [he]
    exact hi id h

/-- What no write touches: the users, the sessions and the clock. -/
theorem frame_apply (ch : Choice) (w : World) (e : Effect) :
    (e.apply ch w).db.users = w.db.users ∧ (e.apply ch w).sessions = w.sessions ∧ (e.apply ch w).now = w.now := by
  cases ho : e.outside with
  | true => cases e <;> first | exact ⟨rfl, rfl, rfl⟩ | cases ho
  | false =>
    obtain ⟨db, issued, he, hu, -⟩ := statement_apply ch w e ho
    rw [he]
    exact ⟨hu, rfl, rfl⟩

/-- The queue after a write. -/
theorem queue_apply (ch : Choice) (w : World) (e : Effect) :
    (e.apply ch w).queue = w.queue ∨
      ∃ payload, e = .queueAdd payload ∧ (e.apply ch w).queue = w.queue ++ [⟨payload, 0, .waiting⟩] := by
  cases ho : e.outside with
  | true =>
    cases e with
    | queueAdd payload => exact Or.inr ⟨payload, rfl, rfl⟩
    | _ => first | exact Or.inl rfl | cases ho
  | false =>
    obtain ⟨db, issued, he, -, -⟩ := statement_apply ch w e ho
    exact Or.inl (by rw [he])

/-- The messages after a write: a publish appends one, and nothing else touches them. -/
theorem published_apply (ch : Choice) (w : World) (e : Effect) :
    (e.apply ch w).published = w.published ∨
      ∃ message, e = .publish message ∧ (e.apply ch w).published = w.published ++ [message] := by
  cases ho : e.outside with
  | true =>
    cases e with
    | publish message => exact Or.inr ⟨message, rfl, rfl⟩
    | _ => first | exact Or.inl rfl | cases ho
  | false =>
    obtain ⟨db, issued, he, -, -⟩ := statement_apply ch w e ho
    exact Or.inl (by rw [he])

/-- An object of the bucket after a write: the one that was there, or the one just put. -/
theorem bucket_apply (ch : Choice) (w : World) (e : Effect) (key : String) :
    (e.apply ch w).bucket key = w.bucket key ∨
      (∃ size, e = .putObject key size ∧ (e.apply ch w).bucket key = some ⟨size⟩) ∨
      (e = .removeObject key ∧ (e.apply ch w).bucket key = none) := by
  cases ho : e.outside with
  | true =>
    cases e with
    | putObject k size =>
      by_cases hk : key = k
      · exact Or.inr (Or.inl ⟨size, by rw [hk], by simp [Effect.apply, World.setObject, hk]⟩)
      · exact Or.inl (by simp [Effect.apply, World.setObject, hk])
    | removeObject k =>
      by_cases hk : key = k
      · exact Or.inr (Or.inr ⟨by rw [hk], by simp [Effect.apply, World.setObject, hk]⟩)
      · exact Or.inl (by simp [Effect.apply, World.setObject, hk])
    | _ => first | exact Or.inl rfl | cases ho
  | false =>
    obtain ⟨db, issued, he, -, -⟩ := statement_apply ch w e ho
    exact Or.inl (by rw [he])

/-- A policy after a write: one that was there, or the one just signed. -/
theorem policies_apply {ch : Choice} {w : World} {e : Effect} {policy : PostPolicy} (h : policy ∈ (e.apply ch w).policies) :
    policy ∈ w.policies ∨ e = .presign policy := by
  cases ho : e.outside with
  | true =>
    cases e with
    | presign p =>
      rcases List.mem_cons.1 h with h | h
      · exact Or.inr (by rw [h])
      · exact Or.inl h
    | _ => first | exact Or.inl h | cases ho
  | false =>
    obtain ⟨db, issued, he, -, -⟩ := statement_apply ch w e ho
    rw [he] at h
    exact Or.inl h

end FileProcessing
