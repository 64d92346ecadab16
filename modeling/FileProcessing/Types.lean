import FileProcessing.Lib.Hex
import FileProcessing.Lib.Pages
import FileProcessing.Lib.PosixPath

/-!
# The types the API, the worker and the database share

Ids, statuses, the rows of the four tables, the payload of a queued job, the events of a job and the errors a call may throw.
Times are milliseconds since the epoch, on one clock.
-/

namespace FileProcessing

/-- A UUID, the 128 bits PostgreSQL stores. -/
structure Uuid where
  bits : BitVec 128
  deriving DecidableEq, Repr

/-- The canonical text of a UUID: 32 lower-case hexadecimal digits in groups of 8, 4, 4, 4 and 12. -/
def Uuid.chars (u : Uuid) : List Char :=
  let d := Hex.digits 32 u.bits.toNat
  d.take 8 ++ '-' :: (d.drop 8).take 4 ++ '-' :: (d.drop 12).take 4 ++ '-' :: (d.drop 16).take 4 ++ '-' :: d.drop 20

/-- The canonical text of a UUID, as a string. -/
def Uuid.text (u : Uuid) : String := String.ofList u.chars

/-- The rows as the database comes to them where a statement leaves their order open: in the order in which their ids are named. -/
def inOrder {α : Type} (id : α → Uuid) (order : List Uuid) (rows : List α) : List α :=
  Pages.arrange id (fun u => u.bits.toNat) order rows

theorem inOrder_perm {α : Type} {id : α → Uuid} (order : List Uuid) (rows : List α) : (inOrder id order rows).Perm rows :=
  Pages.arrange_perm order rows

@[simp] theorem mem_inOrder {α : Type} {id : α → Uuid} {order : List Uuid} {rows : List α} {row : α} :
    row ∈ inOrder id order rows ↔ row ∈ rows := Pages.mem_arrange

/-- Two UUIDs of the same bits are one. -/
theorem Uuid.toNat_injective : Function.Injective (fun u : Uuid => u.bits.toNat) := by
  rintro ⟨a⟩ ⟨b⟩ h
  have hbits : a = b := BitVec.toNat_inj.mp h
  rw [hbits]

/-- The order in which rows come does not depend on how the table holds them. -/
theorem inOrder_congr {α : Type} {id : α → Uuid} (order : List Uuid) {rows rows' : List α} (hnodup : (rows.map id).Nodup)
    (hperm : rows.Perm rows') : inOrder id order rows = inOrder id order rows' :=
  Pages.arrange_congr Uuid.toNat_injective order hnodup hperm

/-- Milliseconds since the epoch. -/
abbrev Time := Int

/-- The lifecycle of an uploaded file. -/
inductive FileStatus where
  | pending | ready | deleted
  deriving DecidableEq, Repr

/-- The lifecycle of a processing job. -/
inductive JobStatus where
  | pending | active | completed | failed
  deriving DecidableEq, Repr

/-- A row of `users`. -/
structure User where
  id : Uuid
  email : String
  passwordHash : String
  refreshTokenHash : Option String
  isGuest : Bool
  createdAt : Time
  updatedAt : Time
  deriving DecidableEq, Repr

/-- A row of `api_keys`. -/
structure ApiKeyRow where
  id : Uuid
  userId : Uuid
  keyHash : String
  keyPrefix : String
  lastFour : String
  createdAt : Time
  deriving DecidableEq, Repr

/-- The values of an `INSERT INTO api_keys`. -/
structure NewApiKey where
  userId : Uuid
  keyHash : String
  keyPrefix : String
  lastFour : String
  deriving DecidableEq, Repr

/-- A row of `files`. -/
structure FileRow where
  id : Uuid
  userId : Uuid
  originalName : String
  mimeType : String
  size : Int
  storagePath : String
  status : FileStatus
  createdAt : Time
  updatedAt : Time
  deriving DecidableEq, Repr

/-- The values of an `INSERT INTO files`; the id and the times are the database's defaults. -/
structure NewFile where
  userId : Uuid
  originalName : String
  mimeType : String
  size : Int
  storagePath : String
  status : FileStatus
  deriving DecidableEq, Repr

/-- A row of `jobs`. -/
structure JobRow where
  id : Uuid
  fileId : Uuid
  userId : Uuid
  type : String
  status : JobStatus
  progress : Nat
  outputPath : Option String
  outputFileId : Option Uuid
  errorMessage : Option String
  createdAt : Time
  updatedAt : Time
  deriving DecidableEq, Repr

/-- The values of an `INSERT INTO jobs`. -/
structure NewJob where
  userId : Uuid
  fileId : Uuid
  type : String
  status : JobStatus
  progress : Nat
  deriving DecidableEq, Repr

/-- The `extra` argument of `JobRepository.updateStatus`; a field that is absent is not written. -/
structure JobExtra where
  errorMessage : Option String := none
  outputPath : Option String := none
  outputFileId : Option Uuid := none
  progress : Option Nat := none
  deriving DecidableEq, Repr

/-- The options of a job. -/
structure JobOptions where
  quality : Option Nat
  deriving DecidableEq, Repr

/-- What the API enqueues and the worker consumes. -/
structure JobPayload where
  jobId : Uuid
  fileId : Uuid
  type : String
  userId : Uuid
  options : Option JobOptions
  deriving DecidableEq, Repr

/-- What the worker publishes about a job: the `data` of `job:progress`, `job:completed` and `job:failed`. -/
inductive JobEvent where
  | progress (progress : Nat) (status : JobStatus)
  | completed (outputFileId : Uuid)
  | failed (error : String)
  deriving DecidableEq, Repr

/-- A message on the channel `job:<eventType>:<jobId>`. -/
structure Message where
  jobId : Uuid
  event : JobEvent
  deriving DecidableEq, Repr

/-- A small UUID, for runs written out. -/
def Trace.uuid (n : Nat) : Uuid := ⟨BitVec.ofNat 128 n⟩

/-- A ready file of user 0 with that name. -/
def Trace.storedFile (id : Uuid) (name : String) : FileRow where
  id := id
  userId := uuid 0
  originalName := name
  mimeType := "text/plain"
  size := 1
  storagePath := ""
  status := .ready
  createdAt := 0
  updatedAt := 0

/-- What a call throws: an `AppError`, or any other error with its message. -/
inductive Err where
  | app (statusCode : Nat) (code message : String)
  | error (message : String)
  deriving DecidableEq, Repr

/-- `err.message`. -/
def Err.message : Err → String
  | .app _ _ message => message
  | .error message => message

def badRequest (code message : String) : Err := .app 400 code message
def unauthorized (code message : String) : Err := .app 401 code message
def forbidden (code message : String) : Err := .app 403 code message
def notFound (code message : String) : Err := .app 404 code message
def conflict (code message : String) : Err := .app 409 code message

/-- `path.extname` on strings. -/
def extname (path : String) : String := String.ofList (PosixPath.extname path.toList)

/-- `path.basename` on strings. -/
def basename (path suffix : String) : String := String.ofList (PosixPath.basename path.toList suffix.toList)

/-- The object key `createUploadUrl` reserves. -/
def uploadKey (userId random : Uuid) (ext : String) : String := userId.text ++ "/" ++ random.text ++ ext

/-- The object key a processor writes the output of a job under. -/
def outputKey (userId jobId : Uuid) (name : String) : String :=
  "processed/" ++ userId.text ++ "/" ++ jobId.text ++ "/" ++ name

end FileProcessing
