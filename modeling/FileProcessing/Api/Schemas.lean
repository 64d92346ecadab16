import FileProcessing.Lib.Unicode
import FileProcessing.Api.Reads
import FileProcessing.System

/-!
# What the routes admit and answer, and what the stores admit

The bodies `createUploadUrlBodySchema` and `createJobBodySchema` accept, and the queries of the two lists; the answer the error
handler makes of an error; and what a call needs to be stored: the values of an `INSERT` fit their columns, the key of an object is
at most as long as the store allows.
-/

namespace FileProcessing

/-- A body `createUploadUrlBodySchema` accepts. A length counts code points. -/
structure CreateUploadUrlBody extends FileService.CreateUploadUrlInput where
  filename_minLength : 1 ≤ filename.length
  filename_maxLength : filename.length ≤ 255
  mimeType_minLength : 1 ≤ mimeType.length
  mimeType_maxLength : mimeType.length ≤ 127
  size_minimum : 1 ≤ size

/-- A body `createJobBodySchema` accepts; its `type` is "default" when the request gives none. -/
structure CreateJobBody where
  fileId : Uuid
  type : String := "default"
  options : Option JobOptions
  type_minLength : 1 ≤ type.length
  quality_range : ∀ quality, options.bind (·.quality) = some quality → 1 ≤ quality ∧ quality ≤ 100

/-- A query `listFilesQuerySchema` accepts, whatever its page. -/
structure ListFilesQuery where
  limit : Nat
  search : Option String
  limit_minimum : 1 ≤ limit
  limit_maximum : limit ≤ 100
  search_minLength : ∀ text, search = some text → 1 ≤ text.length

/-- A query `listJobsQuerySchema` accepts, whatever its page. -/
structure ListJobsQuery where
  limit : Nat
  status : Option JobStatus
  fileId : Option Uuid
  limit_minimum : 1 ≤ limit
  limit_maximum : limit ≤ 100

/-- The options of a page of files. -/
def ListFilesQuery.opts (q : ListFilesQuery) (page : Nat) : ListOptions := ⟨page, q.limit, q.search⟩

/-- The options of a page of jobs. -/
def ListJobsQuery.opts (q : ListJobsQuery) (page : Nat) : ListJobOptions := ⟨page, q.limit, q.status, q.fileId⟩

/-- The schema of the route, where it has a body, accepts the request. -/
def Request.Admitted : Request → Prop
  | .createUploadUrl _ input => ∃ body : CreateUploadUrlBody, body.toCreateUploadUrlInput = input
  | .createJob _ fileId type options =>
    ∃ body : CreateJobBody, body.fileId = fileId ∧ body.type = type ∧ body.options = options
  | _ => True

/-- The answer to a request that failed. -/
structure ErrorReply where
  statusCode : Nat
  code : String
  message : String
  deriving DecidableEq, Repr

/-- The error handler, on an error a service throws: an `AppError` is answered as it says, any other is hidden. -/
def errorHandler : Err → ErrorReply
  | .app statusCode code message => ⟨statusCode, code, message⟩
  | .error _ => ⟨500, "INTERNAL_ERROR", "Internal server error"⟩

/-- The longest key of an object, in bytes. -/
def maxKeyLength : Nat := 1024

/-- The call can be stored, as far as lengths go. -/
def Call.Fits : {α : Type} → Call α → Prop
  | _, .createFile data => FileRepository.fits data = true
  | _, .createJob data => JobRepository.fits data = true
  | _, .putObject key _ => (utf8Bytes key).length ≤ maxKeyLength
  | _, _ => True

/-- Every call a task is about to make can be stored. -/
def Storable (cfg : Config) (s : System) : Prop :=
  ∀ (i pick : Nat) (t : Task) (aw : Await (Task × List Task)), s.tasks[i]? = some t → t.next cfg pick = some aw → aw.call.Fits

end FileProcessing
