import FileProcessing.Api.Reads
import Mathlib.Data.Int.Order.Basic

/-!
# `IFileRepository` and `IJobRepository`

The calls of the two interfaces with all the values they take, and what `FileRepository` and `JobRepository` make of them: the statements
of the database after its check of what is to be stored. The rows of a list come sorted by their creation, rows of one time in any
order; the rows of a statement without an order come in any. The order is the environment's, so a call has several replies.
-/

namespace FileProcessing

namespace JobRepository

/-- The values of an update of the status are such as the columns take. -/
def storable (extra : JobExtra) : Bool :=
  (nullableText extra.errorMessage).isSome && (nullableText extra.outputPath).isSome &&
    (extra.progress.all (fun progress => (integerIn progress).isSome))

end JobRepository

/-! ## The calls -/

/-- A call of `IFileRepository` or of `IJobRepository`, with the type of its result. -/
inductive RepoCall : Type → Type where
  | createFile (data : FileValues) : RepoCall FileRow
  | findFilesByUser (userId : Uuid) (opts : ListOptions) : RepoCall (List FileRow × Nat)
  | findFile (userId fileId : Uuid) : RepoCall (Option FileRow)
  | softDelete (userId fileId : Uuid) : RepoCall (Option FileRow)
  | markReady (userId fileId : Uuid) : RepoCall (Option FileRow)
  | findExpiredPending (before : Time) : RepoCall (List FileRow)
  | findExpiredGuestFiles (before : Time) : RepoCall (List FileRow)
  | hardDelete (userId fileId : Uuid) : RepoCall Unit
  | createJob (data : JobValues) : RepoCall JobRow
  | findJobsByUser (userId : Uuid) (opts : ListJobOptions) : RepoCall (List JobRow × Nat)
  | findJob (userId jobId : Uuid) : RepoCall (Option JobRow)
  | updateStatus (jobId : Uuid) (status : JobStatus) (extra : JobExtra) : RepoCall (Option JobRow)
  | cancel (userId jobId : Uuid) : RepoCall (Option JobRow)
  | updateProgress (jobId : Uuid) (progress : Nat) : RepoCall Unit

namespace RepoCall

variable (ilike : String → String → Bool) (gen : Generated) (order : List Uuid) (db : Db)

/-- What the repositories make of a call, where the database comes to rows in an order: the result, or what it rejects the call with,
and the tables after it. -/
def exec : {α : Type} → RepoCall α → Except Err α × Db
  | _, .createFile data =>
    match FileRepository.insert db gen data with
    | none => (.error rejected, db)
    | some (row, db) => (.ok row, db)
  | _, .findFilesByUser userId opts =>
    (do
      let rows ← FileRepository.selectByUser ilike order db userId opts
      let total ← FileRepository.countByUser ilike db userId opts
      return (rows, total), db)
  | _, .findFile userId fileId => (.ok (FileRepository.findById db userId fileId), db)
  | _, .softDelete userId fileId =>
    let (row, db) := FileRepository.softDelete db gen.now userId fileId
    (.ok row, db)
  | _, .markReady userId fileId =>
    let (row, db) := FileRepository.markReady db gen.now userId fileId
    (.ok row, db)
  | _, .findExpiredPending before => (.ok (inOrder FileRow.id order (FileRepository.findExpiredPending db before)), db)
  | _, .findExpiredGuestFiles before => (.ok (inOrder FileRow.id order (FileRepository.findExpiredGuestFiles db before)), db)
  | _, .hardDelete userId fileId => (.ok (), FileRepository.hardDelete db userId fileId)
  | _, .createJob data =>
    match JobRepository.insert db gen data with
    | none => (.error rejected, db)
    | some (row, db) => (.ok row, db)
  | _, .findJobsByUser userId opts =>
    (do
      let rows ← JobRepository.selectByUser order db userId opts
      return (rows, JobRepository.countByUser db userId opts), db)
  | _, .findJob userId jobId => (.ok (JobRepository.findById db userId jobId), db)
  | _, .updateStatus jobId status extra =>
    if JobRepository.storable extra then
      match JobRepository.updateStatus db gen.now jobId status extra with
      | none => (.error rejected, db)
      | some (row, db) => (.ok row, db)
    else (.error rejected, db)
  | _, .cancel userId jobId =>
    let (row, db) := JobRepository.cancel db gen.now userId jobId
    (.ok row, db)
  | _, .updateProgress jobId progress =>
    match integerIn progress with
    | none => (.error rejected, db)
    | some progress => (.ok (), JobRepository.updateProgress db gen.now jobId progress)

/-- The results the repositories may give: one for every order. -/
def Replies {α : Type} (call : RepoCall α) (reply : Except Err α) : Prop := ∃ order, reply = (call.exec ilike gen order db).1

/-! ### What a call comes to -/

variable {ilike gen order db}

/-- The values of an update of the status that the columns take go to the statement. -/
theorem exec_updateStatus_storable {jobId : Uuid} {status : JobStatus} {extra : JobExtra} (h : JobRepository.storable extra = true) :
    (updateStatus jobId status extra).exec ilike gen order db =
      match JobRepository.updateStatus db gen.now jobId status extra with
      | none => (.error rejected, db)
      | some (row, db) => (.ok row, db) := if_pos h

/-- An update of the status that takes effect. -/
theorem exec_updateStatus {jobId : Uuid} {status : JobStatus} {extra : JobExtra} (hstorable : JobRepository.storable extra = true)
    (houtput : ((db.jobs.select (fun job => job.id = jobId)).isEmpty || JobRepository.outputExists db extra) = true) :
    (updateStatus jobId status extra).exec ilike gen order db =
      (.ok ((db.jobs.select (fun job => job.id = jobId)).head?.map (JobRepository.setStatus gen.now status extra)),
        { db with jobs := db.jobs.update (fun job => job.id = jobId) (JobRepository.setStatus gen.now status extra)
                    (JobRepository.setStatus_id gen.now status extra) }) := by
  have hupdate : JobRepository.updateStatus db gen.now jobId status extra = some _ := if_pos houtput
  rw [exec_updateStatus_storable hstorable, hupdate]

end RepoCall

end FileProcessing
