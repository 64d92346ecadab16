import FileProcessing.World

/-!
# `JobService`: creating and cancelling a job

The suspension points of `create` and `cancel`, as in `Api/FileService.lean`.
-/

namespace FileProcessing

namespace JobService

/-- The suspension points of `create`. -/
inductive Create where
  | findFile
  | create
  | add (job : JobRow)
  | returned (job : JobRow)
  | threw (err : Err)
  deriving DecidableEq, Repr

/-- `JobService.create`. -/
def create (userId fileId : Uuid) (type : String) (options : Option JobOptions) : Create → Option (Await Create)
  | .findFile => some
    { call := .findFile userId fileId
      resume := fun
        | .error e => .threw e
        | .ok none => .threw (notFound "FILE_NOT_FOUND" "File not found")
        | .ok (some file) =>
          if file.status = .deleted then .threw (notFound "FILE_NOT_FOUND" "File not found")
          else if file.status ≠ .ready then .threw (conflict "FILE_NOT_READY" "File is not ready for processing")
          else .create }
  | .create => some
    { call := .createJob { userId := userId, fileId := fileId, type := type, status := .pending, progress := 0 }
      resume := fun
        | .error e => .threw e
        | .ok job => .add job }
  | .add job => some
    { call := .queueAdd { jobId := job.id, fileId := fileId, type := type, userId := userId, options := options }
      resume := fun
        | .error e => .threw e
        | .ok () => .returned job }
  | .returned _ => none
  | .threw _ => none

/-- The suspension points of `cancel`. -/
inductive Cancel where
  | findById
  | cancel
  | returned
  | threw (err : Err)
  deriving DecidableEq, Repr

/-- `JobService.cancel`: the row `JobRepository.cancel` returns is not looked at. -/
def cancel (userId jobId : Uuid) : Cancel → Option (Await Cancel)
  | .findById => some
    { call := .findJob userId jobId
      resume := fun
        | .error e => .threw e
        | .ok none => .threw (notFound "JOB_NOT_FOUND" "Job not found")
        | .ok (some job) =>
          if job.userId ≠ userId then .threw (forbidden "FORBIDDEN" "You do not have access to this job")
          else if job.status ≠ .pending then
            .threw (badRequest "JOB_NOT_CANCELLABLE" "Only pending jobs can be cancelled")
          else .cancel }
  | .cancel => some
    { call := .cancelJob userId jobId
      resume := fun
        | .error e => .threw e
        | .ok _ => .returned }
  | .returned => none
  | .threw _ => none

end JobService

end FileProcessing
