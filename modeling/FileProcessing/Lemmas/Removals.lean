import FileProcessing.Lemmas.Seen

/-!
# The tables without some of their files

What the removal of one file after another, by the one sweep or by the other, leaves of the tables: the rows themselves, not only which
of them are there.
-/

namespace FileProcessing

variable {kind : SweepKind} {db db' : Db} {done : List FileRow} {file : FileRow}

/-- The job without an output that is among the files. -/
def JobRow.withoutOutputs (files : List FileRow) (job : JobRow) : JobRow :=
  if files.any (fun file => job.outputFileId = some file.id) then { job with outputFileId := none } else job

/-- The tables once the sweep has removed the files. The sweep of the pending uploads marks their rows deleted, each at a time of its
own, and leaves all others as they are; the guest sweep takes their rows and the jobs of them away, and clears them where they were
outputs. -/
def SweepKind.Removed (kind : SweepKind) (db : Db) (files : List FileRow) (db' : Db) : Prop :=
  db'.users = db.users ∧
    match kind with
    | .pendingUploads => db'.jobs = db.jobs ∧ ∃ time : Uuid → Time, db'.files.rows =
        db.files.rows.map (fun row => if row ∈ files then { row with status := .deleted, updatedAt := time row.id } else row)
    | .guestResources => db'.files.rows = db.files.rows.filter (fun row => row ∉ files) ∧
        db'.jobs.rows = (db.jobs.rows.filter (fun job => !files.any (fun file => job.fileId = file.id))).map
          (JobRow.withoutOutputs files)

/-- The statement that removes a row. -/
def SweepKind.remove (kind : SweepKind) (now : Time) (db : Db) (file : FileRow) : Db :=
  match kind with
  | .pendingUploads => (FileRepository.softDelete db now file.userId file.id).2
  | .guestResources => FileRepository.hardDelete db file.userId file.id

theorem removed_nil (kind : SweepKind) (db : Db) : kind.Removed db [] db := by
  cases kind with
  | pendingUploads => exact ⟨rfl, rfl, fun _ => 0, by simp⟩
  | guestResources =>
    refine ⟨rfl, by simp, ?_⟩
    have hid : JobRow.withoutOutputs [] = id := rfl
    simp [hid]

/-- A row of the table is owned by the owner of a row of the id just when it is that row. -/
theorem owned_iff (hfile : file ∈ db.files) {row : FileRow} (hrow : row ∈ db.files) :
    FileRepository.owned file.userId file.id row = true ↔ row = file := by
  rw [FileRepository.owned, Bool.and_eq_true, decide_eq_true_eq, decide_eq_true_eq]
  constructor
  · rintro ⟨hid, -⟩
    exact db.files.eq_of_key_eq hrow hfile hid
  · rintro rfl
    exact ⟨rfl, rfl⟩

/-- One file more is marked deleted. -/
theorem removed_pending (h : SweepKind.pendingUploads.Removed db done db') (hfile : file ∈ db.files) (hnew : file ∉ done) (now : Time) :
    SweepKind.pendingUploads.Removed db (done ++ [file]) (SweepKind.pendingUploads.remove now db' file) := by
  obtain ⟨husers, hjobs, time, hrows⟩ := h
  refine ⟨husers, hjobs, fun id => if id = file.id then now else time id, ?_⟩
  have hremove : (SweepKind.pendingUploads.remove now db' file).files.rows = db'.files.rows.map (fun row =>
      if FileRepository.owned file.userId file.id row then { row with status := .deleted, updatedAt := now } else row) := rfl
  rw [hremove, hrows, List.map_map]
  refine List.map_congr_left (fun row hrow => ?_)
  by_cases heq : row = file
  · subst heq
    have hself : FileRepository.owned row.userId row.id row = true := (owned_iff hfile hfile).mpr rfl
    simp [hnew, hself]
  · have hother : FileRepository.owned file.userId file.id row = false := by
      rw [← Bool.not_eq_true, owned_iff hfile hrow]
      exact heq
    have hid : row.id ≠ file.id := fun hid => heq (db.files.eq_of_key_eq hrow hfile hid)
    have hkept (status : FileStatus) (updatedAt : Time) :
        FileRepository.owned file.userId file.id { row with status := status, updatedAt := updatedAt } = false := hother
    by_cases hdone : row ∈ done <;> simp [hdone, heq, hid, hother, hkept]

/-- Clearing the outputs among some files and then one more is clearing those among them all. -/
theorem withoutOutputs_concat (done : List FileRow) (file : FileRow) (job : JobRow) :
    (job.withoutOutputs done).withoutOutputs [file] = job.withoutOutputs (done ++ [file]) := by
  by_cases hdone : done.any (fun file => job.outputFileId = some file.id) = true
  · have hboth : (done ++ [file]).any (fun file => job.outputFileId = some file.id) = true := by
      rw [List.any_append, hdone, Bool.true_or]
    rw [show job.withoutOutputs done = { job with outputFileId := none } from if_pos hdone,
      show job.withoutOutputs (done ++ [file]) = { job with outputFileId := none } from if_pos hboth]
    exact if_neg (by simp)
  · have hlast : (done ++ [file]).any (fun file => job.outputFileId = some file.id) =
        [file].any (fun file => job.outputFileId = some file.id) := by
      rw [List.any_append, Bool.eq_false_iff.mpr hdone, Bool.false_or]
    rw [show job.withoutOutputs done = job from if_neg hdone, JobRow.withoutOutputs, JobRow.withoutOutputs, hlast]

/-- Clearing outputs leaves the file and the status of a job. -/
theorem withoutOutputs_same (files : List FileRow) (job : JobRow) :
    (job.withoutOutputs files).fileId = job.fileId ∧ (job.withoutOutputs files).status = job.status := by
  rw [JobRow.withoutOutputs]
  split <;> exact ⟨rfl, rfl⟩

/-- One file more is taken away, with its jobs. -/
theorem removed_guest (h : SweepKind.guestResources.Removed db done db') (hfile : file ∈ db.files) (hnew : file ∉ done) (now : Time) :
    SweepKind.guestResources.Removed db (done ++ [file]) (SweepKind.guestResources.remove now db' file) := by
  obtain ⟨husers, hrows, hjobs⟩ := h
  have hfile' : file ∈ db'.files := by
    rw [Table.mem_def, hrows, List.mem_filter]
    exact ⟨hfile, decide_eq_true hnew⟩
  have howner (id : Uuid) : db'.files.rows.any (fun row => FileRepository.owned file.userId file.id row && decide (id = row.id)) =
      decide (id = file.id) := by
    rw [Bool.eq_iff_iff, List.any_eq_true, decide_eq_true_eq]
    constructor
    · rintro ⟨row, hrow, hand⟩
      obtain ⟨howned, hid⟩ := Bool.and_eq_true_iff.mp hand
      rw [(owned_iff hfile' hrow).mp howned] at hid
      exact of_decide_eq_true hid
    · rintro rfl
      exact ⟨file, hfile', Bool.and_eq_true_iff.mpr ⟨(owned_iff hfile' hfile').mpr rfl, decide_eq_true rfl⟩⟩
  refine ⟨husers, ?_, ?_⟩
  · have hremove : (SweepKind.guestResources.remove now db' file).files.rows =
        db'.files.rows.filter (fun row => !FileRepository.owned file.userId file.id row) := rfl
    rw [hremove, hrows, List.filter_filter]
    refine List.filter_congr (fun row hrow => ?_)
    have howned : FileRepository.owned file.userId file.id row = decide (row = file) := by
      rw [Bool.eq_iff_iff, owned_iff hfile hrow, decide_eq_true_eq]
    rw [howned]
    by_cases heq : row = file <;> simp [heq, hnew]
  · have hclear (job : JobRow) : FileRepository.clearOutput (FileRepository.owned file.userId file.id) db' job =
        job.withoutOutputs [file] := by
      have hany : db'.files.rows.any (fun row => FileRepository.owned file.userId file.id row &&
          decide (job.outputFileId = some row.id)) = decide (job.outputFileId = some file.id) := by
        cases hout : job.outputFileId with
        | none => simp
        | some id => simpa using howner id
      rw [FileRepository.clearOutput, JobRow.withoutOutputs, hany, List.any_cons, List.any_nil, Bool.or_false]
    have hremove : (SweepKind.guestResources.remove now db' file).jobs.rows =
        ((db'.jobs.rows.filter (fun job => !db'.files.rows.any (fun row => FileRepository.owned file.userId file.id row &&
          decide (job.fileId = row.id)))).map (fun job =>
            if true then FileRepository.clearOutput (FileRepository.owned file.userId file.id) db' job else job)) := rfl
    rw [hremove, hjobs, List.filter_map, List.filter_filter, List.map_map]
    have hkept : ∀ job : JobRow, (((fun job : JobRow => !db'.files.rows.any (fun row =>
        FileRepository.owned file.userId file.id row && decide (job.fileId = row.id))) ∘ JobRow.withoutOutputs done) job &&
          !done.any (fun file => decide (job.fileId = file.id))) =
        !(done ++ [file]).any (fun file => decide (job.fileId = file.id)) := by
      intro job
      rw [Function.comp, howner, (withoutOutputs_same done job).1, List.any_append, List.any_cons, List.any_nil, Bool.or_false,
        Bool.not_or, Bool.and_comm]
    rw [List.filter_congr (fun job _ => hkept job)]
    refine List.map_congr_left (fun job _ => ?_)
    rw [Function.comp, if_pos rfl, hclear, withoutOutputs_concat]

/-- One file more is removed. -/
theorem removed_concat (h : kind.Removed db done db') (hfile : file ∈ db.files) (hnew : file ∉ done) (now : Time) :
    kind.Removed db (done ++ [file]) (kind.remove now db' file) := by
  cases kind with
  | pendingUploads => exact removed_pending h hfile hnew now
  | guestResources => exact removed_guest h hfile hnew now

/-! ## The batch of a second sweep -/

theorem nodup_batch (kind : SweepKind) (db : Db) (before : Time) : (kind.batch db before).Nodup := by
  have hrows : db.files.rows.Nodup := List.Nodup.of_map FileRow.id db.files.nodup
  cases kind with
  | pendingUploads => exact hrows.filter _
  | guestResources => exact hrows.filter _

/-- Once the rows of the batch are removed, in whatever order, the sweep of the pending uploads finds nothing. -/
theorem batch_pending {before : Time} (hbatch : ∀ row, row ∈ done ↔ row ∈ SweepKind.pendingUploads.batch db before)
    (h : SweepKind.pendingUploads.Removed db done db') : SweepKind.pendingUploads.batch db' before = [] := by
  obtain ⟨-, -, time, hrows⟩ := h
  rw [SweepKind.batch, FileRepository.findExpiredPending, Table.select, List.filter_eq_nil_iff, hrows, List.forall_mem_map]
  intro row hrow hexpired
  split at hexpired
  · simp at hexpired
  · rename_i hnot
    exact hnot ((hbatch row).mpr (List.mem_filter.mpr ⟨hrow, hexpired⟩))

/-- Once they are removed, the guest sweep finds nothing: a file that is left has the open jobs it had. -/
theorem batch_guest {before : Time} (hbatch : ∀ row, row ∈ done ↔ row ∈ SweepKind.guestResources.batch db before)
    (h : SweepKind.guestResources.Removed db done db') : SweepKind.guestResources.batch db' before = [] := by
  obtain ⟨husers, hrows, hjobs⟩ := h
  rw [SweepKind.batch, FileRepository.findExpiredGuestFiles, Table.select, List.filter_eq_nil_iff]
  intro row hrow hexpired
  rw [hrows, List.mem_filter, decide_eq_true_eq] at hrow
  obtain ⟨hrow, hleft⟩ := hrow
  have hopen : FileRepository.hasOpenJob db row.id = true → FileRepository.hasOpenJob db' row.id = true := by
    intro hany
    obtain ⟨job, hjob, hand⟩ := List.any_eq_true.mp hany
    obtain ⟨hfileId, hstatus⟩ := Bool.and_eq_true_iff.mp hand
    have hcascade : done.any (fun file => job.fileId = file.id) = false := by
      rw [List.any_eq_false]
      intro file hfile hid
      have heq : row.id = file.id := (of_decide_eq_true hfileId).symm.trans (of_decide_eq_true hid)
      exact hleft (db.files.eq_of_key_eq hrow (mem_batch ((hbatch file).mp hfile)) heq ▸ hfile)
    refine List.any_eq_true.mpr ⟨job.withoutOutputs done, ?_, ?_⟩
    · rw [hjobs]
      exact List.mem_map_of_mem (List.mem_filter.mpr ⟨hjob, by rw [hcascade]; rfl⟩)
    · rw [(withoutOutputs_same done job).1, (withoutOutputs_same done job).2]
      exact Bool.and_eq_true_iff.mpr ⟨hfileId, hstatus⟩
  rw [husers, Bool.and_eq_true, Bool.not_eq_true'] at hexpired
  obtain ⟨hfirst, hclosed⟩ := hexpired
  have hclosed₀ : FileRepository.hasOpenJob db row.id = false := by
    rw [← Bool.not_eq_true]
    intro hany
    rw [hopen hany] at hclosed
    cases hclosed
  refine hleft ((hbatch row).mpr (List.mem_filter.mpr ⟨hrow, ?_⟩))
  rw [hclosed₀, hfirst]
  rfl

theorem batch_removed {before : Time} (hbatch : ∀ row, row ∈ done ↔ row ∈ kind.batch db before) (h : kind.Removed db done db') :
    kind.batch db' before = [] := by
  cases kind with
  | pendingUploads => exact batch_pending hbatch h
  | guestResources => exact batch_guest hbatch h

end FileProcessing
