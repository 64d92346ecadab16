import FileProcessing.Lemmas.OwnRows

/-!
# Two runs of one call

A call made for a user names this user in every statement, or asks for an object of a file it has read as the user's (`OwnCall`). In
two worlds that are alike for the user such a call has one reply, and leaves them alike (`own_exec`); so two runs of a task that begin
alike go through the same points (`own_task`), whatever else the two databases hold.
-/

namespace FileProcessing

/-- The two worlds are alike for the user: in the rows, which may stand in another order, in the objects under the keys, in the time, and in which of the ids are new. -/
structure Alike (u : Uuid) (keys : String → Prop) (ids : Uuid → Prop) (v w : World) : Prop where
  files : (v.filesOf u).Perm (w.filesOf u)
  jobs : (v.jobsOf u).Perm (w.jobsOf u)
  objects : ∀ key, keys key → v.bucket key = w.bucket key
  issued : ∀ id, ids id → (id ∈ v.issued ↔ id ∈ w.issued)
  now : v.now = w.now

/-- The call is one a task of the user makes: it is about rows of the user, or about an object under one of the keys. -/
def OwnCall (u : Uuid) (keys : String → Prop) (w : World) : {α : Type} → Call α → Prop
  | _, .dateNow | _, .presignedPostPolicy _ | _, .queueAdd _ => True
  | _, .createFile data => data.userId = u
  | _, .createJob data => data.userId = u ∧ ∃ file ∈ w.filesOf u, file.id = data.fileId
  | _, .findFile userId _ | _, .softDelete userId _ | _, .markReady userId _ | _, .findJob userId _ | _, .cancelJob userId _ => userId = u
  | _, .statObject key | _, .getObject key => keys key
  | _, _ => False

/-- The call inserts a row, under the id it is given. -/
def Call.inserts : {α : Type} → Call α → Bool
  | _, .createFile _ | _, .createJob _ => true
  | _, _ => false

section Alike

variable {u : Uuid} {keys : String → Prop} {ids : Uuid → Prop} {v w : World}

/-- A selection of files of the user. -/
theorem Alike.select_files (h : Alike u keys ids v w) {p : FileRow → Bool} (hp : ∀ file, p file = true → file.userId = u) :
    (v.db.files.select p).Perm (w.db.files.select p) :=
  Table.select_perm (fun file hf => decide_eq_true (hp file hf)) h.files

/-- A selection of jobs of the user. -/
theorem Alike.select_jobs (h : Alike u keys ids v w) {p : JobRow → Bool} (hp : ∀ job, p job = true → job.userId = u) :
    (v.db.jobs.select p).Perm (w.db.jobs.select p) :=
  Table.select_perm (fun job hj => decide_eq_true (hp job hj)) h.jobs

/-- A statement about one file of the user finds the same row. -/
theorem Alike.head_files (h : Alike u keys ids v w) {p : FileRow → Bool} {id : Uuid}
    (hp : ∀ file, p file = true → file.id = id ∧ file.userId = u) :
    (v.db.files.select p).head? = (w.db.files.select p).head? :=
  Table.head?_perm (fun file hf => (hp file hf).1) (h.select_files (fun file hf => (hp file hf).2))

/-- So does a statement about one job. -/
theorem Alike.head_jobs (h : Alike u keys ids v w) {p : JobRow → Bool} {id : Uuid}
    (hp : ∀ job, p job = true → job.id = id ∧ job.userId = u) :
    (v.db.jobs.select p).head? = (w.db.jobs.select p).head? :=
  Table.head?_perm (fun job hj => (hp job hj).1) (h.select_jobs (fun job hj => (hp job hj).2))

/-- What `owned` says of a file. -/
theorem ownsFile {userId fileId : Uuid} {file : FileRow} (hu : userId = u) (ho : FileRepository.owned userId fileId file = true) :
    file.id = fileId ∧ file.userId = u := by
  rw [FileRepository.owned, Bool.and_eq_true, decide_eq_true_eq, decide_eq_true_eq] at ho
  exact ⟨ho.1, ho.2.trans hu⟩

/-- What it says of a job. -/
theorem ownsJob {userId jobId : Uuid} {job : JobRow} (hu : userId = u) (ho : JobRepository.owned userId jobId job = true) :
    job.id = jobId ∧ job.userId = u := by
  rw [JobRepository.owned, Bool.and_eq_true, decide_eq_true_eq, decide_eq_true_eq] at ho
  exact ⟨ho.1, ho.2.trans hu⟩

/-- An update of files, the same in the two worlds, leaves them alike. -/
theorem Alike.update_files (h : Alike u keys ids v w) {p : FileRow → Bool} {f g : FileRow → FileRow} {hf : ∀ r, (f r).id = r.id}
    {hg : ∀ r, (g r).id = r.id} (hfg : f = g) (hu : ∀ r, (g r).userId = r.userId) :
    Alike u keys ids { v with db := { v.db with files := v.db.files.update p f hf } }
      { w with db := { w.db with files := w.db.files.update p g hg } } := by
  subst hfg
  have hq : ∀ r, decide ((f r).userId = u) = decide (r.userId = u) := fun r => by rw [hu r]
  refine ⟨?_, h.jobs, h.objects, h.issued, h.now⟩
  show ((v.db.files.update p f hf).select _).Perm ((w.db.files.update p f hf).select _)
  rw [Table.select_update hf hq, Table.select_update hf hq]
  exact h.files.map _

/-- An update of jobs, the same in the two worlds, leaves them alike. -/
theorem Alike.update_jobs (h : Alike u keys ids v w) {p : JobRow → Bool} {f g : JobRow → JobRow} {hf : ∀ r, (f r).id = r.id}
    {hg : ∀ r, (g r).id = r.id} (hfg : f = g) (hu : ∀ r, (g r).userId = r.userId) :
    Alike u keys ids { v with db := { v.db with jobs := v.db.jobs.update p f hf } }
      { w with db := { w.db with jobs := w.db.jobs.update p g hg } } := by
  subst hfg
  have hq : ∀ r, decide ((f r).userId = u) = decide (r.userId = u) := fun r => by rw [hu r]
  refine ⟨h.files, ?_, h.objects, h.issued, h.now⟩
  show ((v.db.jobs.update p f hf).select _).Perm ((w.db.jobs.update p f hf).select _)
  rw [Table.select_update hf hq, Table.select_update hf hq]
  exact h.jobs.map _

/-- An id issued in both worlds leaves them alike. -/
theorem Alike.issue (h : Alike u keys ids v w) (id : Uuid) : Alike u keys ids (v.issue id) (w.issue id) where
  files := h.files
  jobs := h.jobs
  objects := h.objects
  issued x hx := by
    show x ∈ id :: v.issued ↔ x ∈ id :: w.issued
    rw [List.mem_cons, List.mem_cons, h.issued x hx]
  now := h.now

/-- An insert into `files` under a new id takes effect when the columns take the values. -/
theorem createFile_fresh {ch : Choice} {data : NewFile} (hw : RowsIssued w) (hi : ch.id ∉ w.issued)
    (hf : FileRepository.Kept (FileRepository.newRow w.now ch.id data)) :
    ∃ files, w.db.files.insert (FileRepository.newRow w.now ch.id data) = some files ∧
      (Call.createFile data).exec ch w =
        (.ok (FileRepository.newRow w.now ch.id data), { w with db := { w.db with files := files } }.issue ch.id) := by
  have hfree : ∀ x ∈ w.db.files, x.id ≠ ch.id := fun x hx he => hi (he ▸ hw.files x hx)
  obtain ⟨files, hins⟩ := Table.insert_of_key_ne (r := FileRepository.newRow w.now ch.id data) hfree
  exact ⟨files, hins, by simp [Call.exec, FileRepository.create_eq, hi, hf, hins]⟩

/-- An insert into `jobs` under a new id takes effect when the columns take the values and the file exists. -/
theorem createJob_fresh {ch : Choice} {data : NewJob} (hw : RowsIssued w) (hi : ch.id ∉ w.issued)
    (hf : JobRepository.Kept (JobRepository.newRow w.now ch.id data)) (hfile : ∃ file ∈ w.db.files, file.id = data.fileId) :
    ∃ jobs, w.db.jobs.insert (JobRepository.newRow w.now ch.id data) = some jobs ∧
      (Call.createJob data).exec ch w =
        (.ok (JobRepository.newRow w.now ch.id data), { w with db := { w.db with jobs := jobs } }.issue ch.id) := by
  have hfree : ∀ x ∈ w.db.jobs, x.id ≠ ch.id := fun x hx he => hi (he ▸ hw.jobs x hx)
  obtain ⟨jobs, hins⟩ := Table.insert_of_key_ne (r := JobRepository.newRow w.now ch.id data) hfree
  have hany : w.db.files.rows.any (fun file => file.id = data.fileId) = true := by
    obtain ⟨file, hmem, he⟩ := hfile
    exact List.any_eq_true.2 ⟨file, hmem, decide_eq_true he⟩
  refine ⟨jobs, hins, ?_⟩
  rw [Call.exec, if_neg hi, JobRepository.create_eq, if_pos ⟨hf, hany⟩, hins]
  rfl

/-- An insert into `files` has one reply in the two worlds, and leaves them alike. -/
theorem Alike.createFile (h : Alike u keys ids v w) (hv : RowsIssued v) (hw : RowsIssued w) {ch : Choice} (hch : ids ch.id)
    (data : NewFile) :
    ((Call.createFile data).exec ch v).1 = ((Call.createFile data).exec ch w).1 ∧
      Alike u keys ids ((Call.createFile data).exec ch v).2 ((Call.createFile data).exec ch w).2 := by
  by_cases hi : ch.id ∈ w.issued
  · have hi' : ch.id ∈ v.issued := (h.issued ch.id hch).2 hi
    simp only [Call.exec, if_pos hi, if_pos hi']
    exact ⟨trivial, h⟩
  have hi' : ch.id ∉ v.issued := fun hx => hi ((h.issued ch.id hch).1 hx)
  by_cases hf : FileRepository.Kept (FileRepository.newRow w.now ch.id data)
  · obtain ⟨files, hins, he⟩ := createFile_fresh hw hi hf
    obtain ⟨files', hins', he'⟩ := createFile_fresh hv hi' (h.now ▸ hf)
    have hlike : Alike u keys ids { v with db := { v.db with files := files' } } { w with db := { w.db with files := files } } := by
      refine ⟨?_, h.jobs, h.objects, h.issued, h.now⟩
      show (files'.select _).Perm (files.select _)
      rw [Table.select_insert hins, Table.select_insert hins', h.now]
      exact h.files.append_right _
    rw [he, he']
    exact ⟨by rw [h.now], hlike.issue ch.id⟩
  · have hnone : FileRepository.create w.db w.now ch.id data = none := if_neg hf
    have hnone' : FileRepository.create v.db v.now ch.id data = none := if_neg (fun hk => hf (h.now ▸ hk))
    simp only [Call.exec, if_neg hi, if_neg hi', hnone, hnone']
    exact ⟨trivial, h⟩

/-- An insert into `jobs` for a file of the user has one reply in the two worlds, and leaves them alike. -/
theorem Alike.createJob (h : Alike u keys ids v w) (hv : RowsIssued v) (hw : RowsIssued w) {ch : Choice} (hch : ids ch.id)
    {data : NewJob} (hfile : ∃ file ∈ v.filesOf u, file.id = data.fileId) :
    ((Call.createJob data).exec ch v).1 = ((Call.createJob data).exec ch w).1 ∧
      Alike u keys ids ((Call.createJob data).exec ch v).2 ((Call.createJob data).exec ch w).2 := by
  by_cases hi : ch.id ∈ w.issued
  · have hi' : ch.id ∈ v.issued := (h.issued ch.id hch).2 hi
    simp only [Call.exec, if_pos hi, if_pos hi']
    exact ⟨trivial, h⟩
  have hi' : ch.id ∉ v.issued := fun hx => hi ((h.issued ch.id hch).1 hx)
  by_cases hf : JobRepository.Kept (JobRepository.newRow w.now ch.id data)
  · obtain ⟨file, hmem, hid⟩ := hfile
    have hmem' : file ∈ w.filesOf u := h.files.mem_iff.mp hmem
    obtain ⟨jobs, hins, he⟩ := createJob_fresh hw hi hf ⟨file, (Table.mem_select.1 hmem').1, hid⟩
    obtain ⟨jobs', hins', he'⟩ := createJob_fresh hv hi' (h.now ▸ hf) ⟨file, (Table.mem_select.1 hmem).1, hid⟩
    have hlike : Alike u keys ids { v with db := { v.db with jobs := jobs' } } { w with db := { w.db with jobs := jobs } } := by
      refine ⟨h.files, ?_, h.objects, h.issued, h.now⟩
      show (jobs'.select _).Perm (jobs.select _)
      rw [Table.select_insert hins, Table.select_insert hins', h.now]
      exact h.jobs.append_right _
    rw [he, he']
    exact ⟨by rw [h.now], hlike.issue ch.id⟩
  · have hnone : JobRepository.create w.db w.now ch.id data = none := if_neg hf
    have hnone' : JobRepository.create v.db v.now ch.id data = none := if_neg (fun hk => hf (h.now ▸ hk))
    simp only [Call.exec, if_neg hi, if_neg hi', hnone, hnone']
    exact ⟨trivial, h⟩

/-- A call of the user has one reply in the two worlds, and leaves them alike. -/
theorem own_exec {α : Type} {call : Call α} (h : Alike u keys ids v w) (hv : RowsIssued v) (hw : RowsIssued w) {ch : Choice}
    (hch : call.inserts = true → ids ch.id) (hc : OwnCall u keys v call) :
    (call.exec ch v).1 = (call.exec ch w).1 ∧ Alike u keys ids (call.exec ch v).2 (call.exec ch w).2 := by
  cases call with
  | dateNow =>
    refine ⟨?_, h⟩
    simp only [Call.exec, h.now]
  | createFile data => exact h.createFile hv hw (hch rfl) data
  | createJob data => exact h.createJob hv hw (hch rfl) hc.2
  | findFile userId fileId =>
    refine ⟨?_, h⟩
    simp only [Call.exec, FileRepository.findById]
    rw [h.head_files (fun file => ownsFile hc)]
  | findJob userId jobId =>
    refine ⟨?_, h⟩
    simp only [Call.exec, JobRepository.findById]
    rw [h.head_jobs (fun job => ownsJob hc)]
  | softDelete userId fileId =>
    have hhead := h.head_files (p := FileRepository.owned userId fileId) (fun file => ownsFile hc)
    refine ⟨?_, h.update_files (by rw [h.now]) (fun _ => rfl)⟩
    simp only [Call.exec, FileRepository.softDelete]
    rw [hhead, h.now]
  | markReady userId fileId =>
    have hhead := h.head_files (p := fun file => FileRepository.owned userId fileId file && file.status = .pending)
      (fun file ho => ownsFile hc (Bool.and_eq_true_iff.1 ho).1)
    refine ⟨?_, h.update_files (by rw [h.now]) (fun _ => rfl)⟩
    simp only [Call.exec, FileRepository.markReady]
    rw [hhead, h.now]
  | cancelJob userId jobId =>
    have hhead := h.head_jobs (p := fun job => JobRepository.owned userId jobId job && job.status = .pending)
      (fun job ho => ownsJob hc (Bool.and_eq_true_iff.1 ho).1)
    refine ⟨?_, h.update_jobs (by rw [h.now]) (fun _ => rfl)⟩
    simp only [Call.exec, JobRepository.cancel]
    rw [hhead, h.now]
  | statObject key | getObject key =>
    have hobj : v.bucket key = w.bucket key := h.objects key hc
    simp only [Call.exec, hobj]
    cases w.bucket key <;> exact ⟨rfl, h⟩
  | presignedPostPolicy | queueAdd => exact ⟨rfl, h.files, h.jobs, h.objects, h.issued, h.now⟩
  | findExpiredPending | findExpiredGuestFiles | hardDelete | updateStatus | updateProgress | putObject | removeObject | publish
  | sharp | readStream | setTimeout | bullProgress => exact hc.elim

/-- A call of the user that inserts nothing has one reply in the two worlds, whatever the environment supplies. -/
theorem own_reply {α : Type} {c : Call α} (h : Alike u keys ids v w) (hv : RowsIssued v) (hw : RowsIssued w)
    (hc : OwnCall u keys v c) (hno : c.inserts = false) (ch : Choice) : (c.exec ch v).1 = (c.exec ch w).1 := by
  refine (own_exec h hv hw (fun hins => ?_) hc).1
  rw [hno] at hins
  cases hins

end Alike

/-! ## The tasks of a user -/

/-- The task is one of the user's, and what it has read so far is the user's: a job is about to be created for a file of the user,
and an object asked for is under one of the keys. -/
def Task.Sees (u : Uuid) (keys : String → Prop) (w : World) : Task → Prop
  | .createUploadUrl userId _ _ | .deleteFile userId _ _ | .cancelJob userId _ _ => userId = u
  | .confirmUpload userId _ .findById => userId = u ∧ ∀ file ∈ w.filesOf u, keys file.storagePath
  | .confirmUpload userId _ (.statObject file) => userId = u ∧ keys file.storagePath
  | .confirmUpload userId _ _ => userId = u
  | .createJob userId fileId _ _ .create => userId = u ∧ ∃ file ∈ w.filesOf u, file.id = fileId
  | .createJob userId _ _ _ _ => userId = u
  | .attempt _ _ _ _ | .failedListener _ _ _ | .report _ _ | .sweep _ _ => False

section Tasks

variable {u : Uuid} {keys : String → Prop} {w : World}

/-- What is found of the user is a file of the user. -/
theorem mem_filesOf {userId fileId : Uuid} {file : FileRow} (hu : userId = u) (h : FileRepository.findById w.db userId fileId = some file) :
    file ∈ w.filesOf u ∧ file.id = fileId := by
  obtain ⟨hmem, hid, howner⟩ := findFile_some h
  exact ⟨Table.mem_select.2 ⟨hmem, decide_eq_true (howner.trans hu)⟩, hid⟩

/-- What a task of the user awaits: a call of the user, and with any reply, or an error, the task goes on seeing only what is the
user's. -/
structure OwnAwait (u : Uuid) (keys : String → Prop) (w : World) (aw : Await (Task × List Task)) : Prop where
  call : OwnCall u keys w aw.call
  reply : ∀ ch, (aw.resume (aw.call.exec ch w).1).1.Sees u keys (aw.call.exec ch w).2
  error : ∀ e, (aw.resume (.error e)).1.Sees u keys w

/-- `confirmUpload` asks for the object of a file it has found as the user's. -/
theorem own_confirmUpload {cfg : Config} {pick : Nat} {userId fileId : Uuid} {p : FileService.ConfirmUpload}
    {aw : Await (Task × List Task)} (h : (Task.confirmUpload userId fileId p).Sees u keys w)
    (hn : (Task.confirmUpload userId fileId p).next cfg pick = some aw) : OwnAwait u keys w aw := by
  obtain ⟨aw, haw, rfl⟩ := Option.map_eq_some_iff.1 hn
  cases p with
  | findById =>
    cases haw
    obtain ⟨hu, hkeys⟩ := h
    refine ⟨hu, fun ch => ?_, fun _ => hu⟩
    cases hfound : FileRepository.findById w.db userId fileId with
    | none =>
      simp only [Await.map, Call.exec, hfound]
      exact hu
    | some file =>
      simp only [Await.map, Call.exec, hfound]
      split
      · exact hu
      split
      · exact hu
      · exact ⟨hu, hkeys file (mem_filesOf hu hfound).1⟩
  | statObject file =>
    cases haw
    obtain ⟨hu, hkey⟩ := h
    refine ⟨hkey, fun ch => ?_, fun _ => hu⟩
    simp only [Await.map]
    split
    · exact hu
    split <;> exact hu
  | markReady file =>
    cases haw
    refine ⟨h, fun ch => ?_, fun _ => h⟩
    simp only [Await.map]
    split <;> exact h
  | returned | threw => cases haw

/-- `create` inserts a job for a file it has found as the user's. -/
theorem own_createJob {cfg : Config} {pick : Nat} {userId fileId : Uuid} {type : String} {options : Option JobOptions}
    {p : JobService.Create} {aw : Await (Task × List Task)} (h : (Task.createJob userId fileId type options p).Sees u keys w)
    (hn : (Task.createJob userId fileId type options p).next cfg pick = some aw) : OwnAwait u keys w aw := by
  obtain ⟨aw, haw, rfl⟩ := Option.map_eq_some_iff.1 hn
  cases p with
  | findFile =>
    cases haw
    refine ⟨h, fun ch => ?_, fun _ => h⟩
    cases hfound : FileRepository.findById w.db userId fileId with
    | none =>
      simp only [Await.map, Call.exec, hfound]
      exact h
    | some file =>
      simp only [Await.map, Call.exec, hfound]
      split
      · exact h
      split
      · exact h
      · exact ⟨h, file, mem_filesOf h hfound⟩
  | create =>
    cases haw
    obtain ⟨hu, hfile⟩ := h
    refine ⟨⟨hu, hfile⟩, fun ch => ?_, fun _ => hu⟩
    simp only [Await.map]
    split <;> exact hu
  | add job =>
    cases haw
    refine ⟨trivial, fun ch => ?_, fun _ => h⟩
    simp only [Await.map]
    split <;> exact h
  | returned | threw => cases haw

/-- A task of the user makes calls of the user, and goes on seeing only what is the user's. -/
theorem own_task {cfg : Config} {pick : Nat} {t : Task} {aw : Await (Task × List Task)} (h : t.Sees u keys w)
    (hn : t.next cfg pick = some aw) : OwnAwait u keys w aw := by
  cases t with
  | createUploadUrl userId input p =>
    obtain ⟨aw, haw, rfl⟩ := Option.map_eq_some_iff.1 hn
    cases p with
    | create objectKey =>
      cases haw
      exact ⟨h, fun _ => h, fun _ => h⟩
    | expiresAt | presign =>
      cases haw
      exact ⟨trivial, fun _ => h, fun _ => h⟩
    | returned | threw => cases haw
  | deleteFile userId fileId p =>
    obtain ⟨aw, haw, rfl⟩ := Option.map_eq_some_iff.1 hn
    cases p with
    | findById | softDelete =>
      cases haw
      exact ⟨h, fun _ => h, fun _ => h⟩
    | returned | threw => cases haw
  | cancelJob userId jobId p =>
    obtain ⟨aw, haw, rfl⟩ := Option.map_eq_some_iff.1 hn
    cases p with
    | findById | cancel =>
      cases haw
      exact ⟨h, fun _ => h, fun _ => h⟩
    | returned | threw => cases haw
  | confirmUpload userId fileId p => exact own_confirmUpload h hn
  | createJob userId fileId type options p => exact own_createJob h hn
  | attempt | failedListener | report | sweep => exact h.elim

/-! ## The calls of a user that only read -/

/-- The call is one a reading task of the user makes. -/
def OwnRead (u : Uuid) (keys : String → Prop) : {α : Type} → ReadCall α → Prop
  | _, .call (.findFile userId _) | _, .call (.findJob userId _) => userId = u
  | _, .call (.getObject key) => keys key
  | _, .selectFiles userId _ | _, .countFiles userId _ | _, .selectJobs userId _ | _, .countJobs userId _ => userId = u
  | _, _ => False

/-- The task is one of the user's, and an object asked for is under one of the keys. -/
def ReadTask.Sees (u : Uuid) (keys : String → Prop) (w : World) : ReadTask → Prop
  | .listFiles userId _ _ | .findFile userId _ _ | .listJobs userId _ _ | .findJob userId _ _ => userId = u
  | .downloadFile userId _ .findById => userId = u ∧ ∀ file ∈ w.filesOf u, keys file.storagePath
  | .downloadFile userId _ (.getObject file) => userId = u ∧ keys file.storagePath
  | .downloadFile userId _ _ => userId = u

/-- A call that reads for the user has one reply in the two worlds. -/
theorem own_read {ids : Uuid → Prop} {v : World} (ilike : String → String → Bool) {α : Type} {call : ReadCall α}
    (h : Alike u keys ids v w) (hv : RowsIssued v) (hw : RowsIssued w) (hc : OwnRead u keys call) (ch : Choice) :
    (call.exec ilike ch v).1 = (call.exec ilike ch w).1 := by
  cases call with
  | call c =>
    cases c with
    | findFile userId fileId => exact own_reply (c := .findFile userId fileId) h hv hw hc rfl ch
    | findJob userId jobId => exact own_reply (c := .findJob userId jobId) h hv hw hc rfl ch
    | getObject key => exact own_reply (c := .getObject key) h hv hw hc rfl ch
    | _ => exact hc.elim
  | selectFiles userId opts | countFiles userId opts =>
    have hperm : (FileRepository.matching ilike v.db userId opts).Perm (FileRepository.matching ilike w.db userId opts) := by
      refine h.select_files (fun file hl => ?_)
      simp only [FileRepository.listed, Bool.and_eq_true, decide_eq_true_eq] at hl
      exact hl.1.1.trans hc
    have hpage : ∀ order p limit, page FileRow.createdAt FileRow.id order p limit (FileRepository.matching ilike v.db userId opts) =
        page FileRow.createdAt FileRow.id order p limit (FileRepository.matching ilike w.db userId opts) :=
      fun _ _ _ => page_congr (Table.nodup_keys _ _) hperm
    simp only [ReadCall.exec, FileRepository.selectByUser, FileRepository.countByUser, hpage, hperm.length_eq]
  | selectJobs userId opts | countJobs userId opts =>
    have hperm : (JobRepository.matching v.db userId opts).Perm (JobRepository.matching w.db userId opts) := by
      refine h.select_jobs (fun job hl => ?_)
      simp only [JobRepository.listed, Bool.and_eq_true, decide_eq_true_eq] at hl
      exact hl.1.1.trans hc
    have hpage : ∀ order p limit, page JobRow.createdAt JobRow.id order p limit (JobRepository.matching v.db userId opts) =
        page JobRow.createdAt JobRow.id order p limit (JobRepository.matching w.db userId opts) :=
      fun _ _ _ => page_congr (Table.nodup_keys _ _) hperm
    simp only [ReadCall.exec, JobRepository.selectByUser, JobRepository.countByUser, hpage, hperm.length_eq]

/-- A reading task of the user makes calls of the user, and goes on seeing only what is the user's. -/
theorem own_readTask (ilike : String → String → Bool) {countFirst : Bool} {t : ReadTask} {aw : ReadAwait ReadTask}
    (h : t.Sees u keys w) (hn : t.next countFirst = some aw) :
    OwnRead u keys aw.call ∧ (∀ ch, (aw.resume (aw.call.exec ilike ch w).1).Sees u keys w) ∧
      ∀ e, (aw.resume (.error e)).Sees u keys w := by
  cases t with
  | listFiles userId opts p | listJobs userId opts p =>
    obtain ⟨aw, haw, rfl⟩ := Option.map_eq_some_iff.1 hn
    cases p with
    | findAllByUser =>
      cases countFirst <;> cases haw <;> exact ⟨h, fun _ => h, fun _ => h⟩
    | count | select =>
      cases haw
      exact ⟨h, fun _ => h, fun _ => h⟩
    | returned | threw => cases haw
  | findFile userId id p | findJob userId id p =>
    obtain ⟨aw, haw, rfl⟩ := Option.map_eq_some_iff.1 hn
    cases p with
    | findById =>
      cases haw
      exact ⟨h, fun _ => h, fun _ => h⟩
    | returned | threw => cases haw
  | downloadFile userId fileId p =>
    obtain ⟨aw, haw, rfl⟩ := Option.map_eq_some_iff.1 hn
    cases p with
    | findById =>
      cases haw
      obtain ⟨hu, hkeys⟩ := h
      refine ⟨hu, fun ch => ?_, fun _ => hu⟩
      cases hfound : FileRepository.findById w.db userId fileId with
      | none =>
        simp only [ReadAwait.map, ReadCall.exec, Call.exec, hfound]
        exact hu
      | some file =>
        simp only [ReadAwait.map, ReadCall.exec, Call.exec, hfound]
        split
        · exact hu
        · exact ⟨hu, hkeys file (mem_filesOf hu hfound).1⟩
    | getObject file =>
      cases haw
      obtain ⟨hu, hkey⟩ := h
      refine ⟨hkey, fun ch => ?_, fun _ => hu⟩
      simp only [ReadAwait.map]
      split <;> exact hu
    | returned | threw => cases haw

end Tasks

/-! ## The API keys of a user -/

/-- The two stores are alike for the user: in the row of the user, in the keys, in the time, and in which of the ids are new. -/
structure AlikeStore (u : Uuid) (ids : Uuid → Prop) (a b : AccountStore) : Prop where
  user : UserRepository.findById a.users u = UserRepository.findById b.users u
  apiKeys : (ApiKeyRepository.keysOf a.apiKeys u).Perm (ApiKeyRepository.keysOf b.apiKeys u)
  issued : ∀ id, ids id → (id ∈ a.issued ↔ id ∈ b.issued)
  now : a.now = b.now

/-- The call is one a task of the user makes on the keys. -/
def OwnKeyCall (u : Uuid) : {α : Type} → AccountCall α → Prop
  | _, .findByUserId userId | _, .countByUserId userId | _, .deleteById _ userId => userId = u
  | _, .createKey data => data.userId = u
  | _, _ => False

/-- The task lists, creates or revokes keys for the user. -/
def AccountTask.KeysOf (u : Uuid) : AccountTask → Prop
  | .listKeys userId _ | .createKey userId _ | .revokeKey userId _ _ => userId = u
  | .register _ _ _ | .login _ _ _ | .refresh _ _ | .logout _ _ | .me _ _ | .changePassword _ _ _ _ => False

/-- A user is found exactly when the table has a row of theirs. -/
theorem findById_isSome (users : Table User.id) (u : Uuid) :
    (UserRepository.findById users u).isSome = users.rows.any (fun user => user.id = u) := by
  rw [Bool.eq_iff_iff]
  simp [UserRepository.findById, Table.select, List.head?_filter]

/-- An insert of a key under a new id takes effect when the values fit and the user exists. -/
theorem createKey_fresh (crypto : Crypto) {a : AccountStore} {ch : AccountChoice} {data : NewApiKey}
    (ha : ∀ row ∈ a.apiKeys, row.id ∈ a.issued) (hi : ch.id ∉ a.issued) (hf : ApiKeyRepository.fits data = true)
    (hu : (UserRepository.findById a.users data.userId).isSome = true) :
    ∃ apiKeys, a.apiKeys.insert (ApiKeyRepository.newRow a.now ch.id data) = some apiKeys ∧
      (AccountCall.createKey data).exec crypto ch a =
        (.ok (ApiKeyRepository.newRow a.now ch.id data), { a with apiKeys := apiKeys, issued := ch.id :: a.issued }) := by
  have hfree : ∀ x ∈ a.apiKeys, x.id ≠ ch.id := fun x hx he => hi (he ▸ ha x hx)
  obtain ⟨apiKeys, hins⟩ := Table.insert_of_key_ne (r := ApiKeyRepository.newRow a.now ch.id data) hfree
  have hany : (ApiKeyRepository.fits data && a.users.rows.any (fun user => user.id = data.userId)) = true := by
    rw [hf, Bool.true_and, ← findById_isSome, hu]
  refine ⟨apiKeys, hins, ?_⟩
  simp only [AccountCall.exec, ApiKeyRepository.create, if_neg hi, if_pos hany, hins]
  rfl

/-- An insert of a key of the user has one reply in the two stores, and leaves them alike. -/
theorem AlikeStore.createKey {crypto : Crypto} {u : Uuid} {ids : Uuid → Prop} {a b : AccountStore} {ch : AccountChoice}
    {data : NewApiKey} (h : AlikeStore u ids a b) (ha : ∀ row ∈ a.apiKeys, row.id ∈ a.issued)
    (hb : ∀ row ∈ b.apiKeys, row.id ∈ b.issued) (hch : ids ch.id) (hu : data.userId = u) :
    ((AccountCall.createKey data).exec crypto ch a).1 = ((AccountCall.createKey data).exec crypto ch b).1 ∧
      AlikeStore u ids ((AccountCall.createKey data).exec crypto ch a).2 ((AccountCall.createKey data).exec crypto ch b).2 := by
  subst hu
  by_cases hi : ch.id ∈ b.issued
  · have hi' : ch.id ∈ a.issued := (h.issued ch.id hch).2 hi
    simp only [AccountCall.exec, if_pos hi, if_pos hi']
    exact ⟨trivial, h⟩
  have hi' : ch.id ∉ a.issued := fun hx => hi ((h.issued ch.id hch).1 hx)
  by_cases hf : ApiKeyRepository.fits data = true ∧ (UserRepository.findById b.users data.userId).isSome = true
  · obtain ⟨hfits, huser⟩ := hf
    have huser' : (UserRepository.findById a.users data.userId).isSome = true := h.user ▸ huser
    obtain ⟨apiKeys, hins, he⟩ := createKey_fresh crypto hb hi hfits huser
    obtain ⟨apiKeys', hins', he'⟩ := createKey_fresh crypto ha hi' hfits huser'
    rw [he, he']
    refine ⟨by rw [h.now], h.user, ?_, fun id hid => ?_, h.now⟩
    · show (apiKeys'.select _).Perm (apiKeys.select _)
      rw [Table.select_insert hins, Table.select_insert hins', h.now]
      exact h.apiKeys.append_right _
    · show id ∈ ch.id :: a.issued ↔ id ∈ ch.id :: b.issued
      rw [List.mem_cons, List.mem_cons, h.issued id hid]
  · have hnone : ∀ users : Table User.id, UserRepository.findById users data.userId = UserRepository.findById b.users data.userId →
        (ApiKeyRepository.fits data && users.rows.any (fun user => user.id = data.userId)) = false := by
      intro users hfound
      rw [← findById_isSome, hfound, Bool.eq_false_iff, ne_eq, Bool.and_eq_true]
      exact hf
    have hcreate : ApiKeyRepository.create b.users b.apiKeys b.now ch.id data = none := if_neg (Bool.eq_false_iff.1 (hnone _ rfl))
    have hcreate' : ApiKeyRepository.create a.users a.apiKeys a.now ch.id data = none :=
      if_neg (Bool.eq_false_iff.1 (hnone _ h.user))
    simp only [AccountCall.exec, if_neg hi, if_neg hi', hcreate, hcreate']
    exact ⟨trivial, h⟩

/-- A call on the keys of the user has one reply in the two stores, and leaves them alike. -/
theorem own_keys (crypto : Crypto) {u : Uuid} {ids : Uuid → Prop} {a b : AccountStore} {α : Type} {call : AccountCall α}
    {ch : AccountChoice} (h : AlikeStore u ids a b) (ha : ∀ row ∈ a.apiKeys, row.id ∈ a.issued)
    (hb : ∀ row ∈ b.apiKeys, row.id ∈ b.issued) (hch : ids ch.id) (hc : OwnKeyCall u call) :
    (call.exec crypto ch a).1 = (call.exec crypto ch b).1 ∧ AlikeStore u ids (call.exec crypto ch a).2 (call.exec crypto ch b).2 := by
  cases call with
  | findByUserId userId =>
    cases hc
    have hkeys : ApiKeyRepository.findByUserId ch.order a.apiKeys u = ApiKeyRepository.findByUserId ch.order b.apiKeys u :=
      inOrder_congr ch.order (Table.nodup_keys _ _) h.apiKeys
    exact ⟨by simp only [AccountCall.exec, hkeys], h⟩
  | countByUserId userId =>
    cases hc
    have hcount : ApiKeyRepository.countByUserId a.apiKeys u = ApiKeyRepository.countByUserId b.apiKeys u :=
      h.apiKeys.length_eq
    exact ⟨by simp only [AccountCall.exec, hcount], h⟩
  | deleteById id userId =>
    cases hc
    have hown : ∀ row : ApiKeyRow, ApiKeyRepository.owned u id row = true → decide (row.userId = u) = true := by
      intro row ho
      exact (Bool.and_eq_true_iff.1 ho).2
    have hfound : (a.apiKeys.select (ApiKeyRepository.owned u id)).length = (b.apiKeys.select (ApiKeyRepository.owned u id)).length :=
      (Table.select_perm hown h.apiKeys).length_eq
    refine ⟨by simp only [AccountCall.exec, ApiKeyRepository.deleteById, hfound], h.user, ?_, h.issued, h.now⟩
    simp only [AccountCall.exec, ApiKeyRepository.deleteById, ApiKeyRepository.keysOf, Table.select_delete]
    exact h.apiKeys.filter _
  | createKey data => exact h.createKey ha hb hch hc
  | createUser | setRefreshTokenHash | updatePassword | findByEmail | findById | bcryptHash | bcryptCompare => exact hc.elim

/-- A task on the keys of the user makes calls on the keys of the user, and stays one. -/
theorem own_keyTask {crypto : Crypto} {auth : AuthServiceConfig} {now : Time} {random : BitVec 192} {u : Uuid} {t : AccountTask}
    {aw : AccountAwait AccountTask} (h : t.KeysOf u) (hn : t.next crypto auth now random = some aw) :
    OwnKeyCall u aw.call ∧ ∀ r, (aw.resume r).KeysOf u := by
  cases t with
  | listKeys userId p =>
    obtain ⟨aw, haw, rfl⟩ := Option.map_eq_some_iff.1 hn
    cases p with
    | findByUserId => cases haw; exact ⟨h, fun _ => h⟩
    | returned | threw => cases haw
  | createKey userId p =>
    obtain ⟨aw, haw, rfl⟩ := Option.map_eq_some_iff.1 hn
    cases p with
    | countByUserId | create => cases haw; exact ⟨h, fun _ => h⟩
    | returned | threw => cases haw
  | revokeKey userId keyId p =>
    obtain ⟨aw, haw, rfl⟩ := Option.map_eq_some_iff.1 hn
    cases p with
    | deleteById => cases haw; exact ⟨h, fun _ => h⟩
    | returned | threw => cases haw
  | register | login | refresh | logout | me | changePassword => exact h.elim

end FileProcessing
