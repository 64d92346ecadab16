import FileProcessing.Lib.Collections
import FileProcessing.Repositories

/-!
# `InMemoryFileRepository`, `InMemoryJobRepository` and `InMemoryUserRepository`

The three interfaces on a `Map`, as the tests of the services run on them. The map takes whatever it is given, and a method looks only at
what its own body asks for. `new Date()` and `crypto.randomUUID()` are what is generated for the call.
-/

namespace FileProcessing

/-- `array.slice(start, end)`: an index below 0 counts from the end. -/
def slice {α : Type} (start stop : Int) (array : List α) : List α :=
  let index (i : Int) : Nat := (if i < 0 then array.length + i else i).toNat
  (array.take (index stop)).drop (index start)

/-- `all.slice(offset, offset + limit)`, with `offset = (page - 1) * limit`. -/
def slicePage {α : Type} (page limit : Nat) (all : List α) : List α :=
  let offset : Int := (page - 1) * limit
  slice offset (offset + limit) all

structure InMemoryFileRepository where
  files : OrderedMap Uuid FileRow

structure InMemoryJobRepository where
  jobs : OrderedMap Uuid JobRow

structure InMemoryUserRepository where
  users : OrderedMap Uuid User

namespace InMemoryFileRepository

variable (gen : Generated) (repo : InMemoryFileRepository)

/-- `create(data)`. -/
def create (data : FileValues) : FileRow × InMemoryFileRepository :=
  let file : FileRow :=
    { id := data.id.getD gen.id
      userId := data.userId
      originalName := data.originalName
      mimeType := data.mimeType
      size := data.size
      storagePath := data.storagePath
      status := data.status.getD .pending
      createdAt := data.createdAt.getD gen.now
      updatedAt := data.updatedAt.getD gen.now }
  (file, ⟨OrderedMap.set repo.files file.id file⟩)

/-- `findAllByUser(userId, opts)`: it looks at no `search`. -/
def findAllByUser (userId : Uuid) (opts : ListOptions) : List FileRow × Nat :=
  let all := (OrderedMap.values repo.files).filter (fun f => f.userId = userId && f.status ≠ .deleted)
  (slicePage opts.page opts.limit all, all.length)

/-- `findById(userId, fileId)`. -/
def findById (userId fileId : Uuid) : Option FileRow :=
  (OrderedMap.get? repo.files fileId).filter (fun file => file.userId = userId)

/-- Set the image of the file of the user that meets a condition. -/
def replace (userId fileId : Uuid) (p : FileRow → Bool) (f : FileRow → FileRow) : Option FileRow × InMemoryFileRepository :=
  let (file, files) := OrderedMap.replace repo.files fileId (fun file => file.userId = userId && p file) f
  (file, ⟨files⟩)

/-- `softDelete(userId, fileId)`. -/
def softDelete (userId fileId : Uuid) : Option FileRow × InMemoryFileRepository :=
  repo.replace userId fileId (fun _ => true) (fun file => { file with status := .deleted, updatedAt := gen.now })

/-- `markReady(userId, fileId)`. -/
def markReady (userId fileId : Uuid) : Option FileRow × InMemoryFileRepository :=
  repo.replace userId fileId (fun file => file.status = .pending) (fun file => { file with status := .ready, updatedAt := gen.now })

/-- `findExpiredPending(before)`. -/
def findExpiredPending (before : Time) : List FileRow :=
  (OrderedMap.values repo.files).filter (fun f => f.status = .pending && f.createdAt < before)

/-- `findExpiredGuestFiles(before)`: of a guest or not, with jobs or without. -/
def findExpiredGuestFiles (before : Time) : List FileRow :=
  (OrderedMap.values repo.files).filter (fun f => f.status = .ready && f.updatedAt < before)

/-- `hardDelete(userId, fileId)`. -/
def hardDelete (userId fileId : Uuid) : InMemoryFileRepository :=
  if (OrderedMap.get? repo.files fileId).any (fun file => file.userId = userId) then ⟨OrderedMap.erase repo.files fileId⟩ else repo

end InMemoryFileRepository

namespace InMemoryJobRepository

variable (gen : Generated) (repo : InMemoryJobRepository)

/-- `create(data)`. -/
def create (data : JobValues) : JobRow × InMemoryJobRepository :=
  let job : JobRow :=
    { id := data.id.getD gen.id
      fileId := data.fileId
      userId := data.userId
      type := data.type.getD "default"
      status := data.status.getD .pending
      progress := data.progress.getD 0
      outputPath := data.outputPath
      outputFileId := data.outputFileId
      errorMessage := data.errorMessage
      createdAt := data.createdAt.getD gen.now
      updatedAt := data.updatedAt.getD gen.now }
  (job, ⟨OrderedMap.set repo.jobs job.id job⟩)

/-- `findAllByUser(userId, opts)`. -/
def findAllByUser (userId : Uuid) (opts : ListJobOptions) : List JobRow × Nat :=
  let all := (OrderedMap.values repo.jobs).filter (fun j => j.userId = userId)
  let all := match opts.status with
    | none => all
    | some status => all.filter (fun j => j.status = status)
  let all := match opts.fileId with
    | none => all
    | some fileId => all.filter (fun j => j.fileId = fileId)
  (slicePage opts.page opts.limit all, all.length)

/-- `findById(userId, jobId)`. -/
def findById (userId jobId : Uuid) : Option JobRow :=
  (OrderedMap.get? repo.jobs jobId).filter (fun job => job.userId = userId)

/-- Set the image of the job that meets a condition. -/
def replace (jobId : Uuid) (p : JobRow → Bool) (f : JobRow → JobRow) : Option JobRow × InMemoryJobRepository :=
  let (job, jobs) := OrderedMap.replace repo.jobs jobId p f
  (job, ⟨jobs⟩)

/-- `updateStatus(jobId, status, extra)`: what `extra` has is spread over the job. -/
def updateStatus (jobId : Uuid) (status : JobStatus) (extra : JobExtra) : Option JobRow × InMemoryJobRepository :=
  repo.replace jobId (fun _ => true) (fun job =>
    { job with
      status := status
      updatedAt := gen.now
      errorMessage := extra.errorMessage.or job.errorMessage
      outputPath := extra.outputPath.or job.outputPath
      outputFileId := extra.outputFileId.or job.outputFileId
      progress := extra.progress.getD job.progress })

/-- `cancel(userId, jobId)`: in whatever status the job is. -/
def cancel (userId jobId : Uuid) : Option JobRow × InMemoryJobRepository :=
  repo.replace jobId (fun job => job.userId = userId) (fun job =>
    { job with status := .failed, errorMessage := some "Cancelled by user", updatedAt := gen.now })

/-- `updateProgress(jobId, progress)`. -/
def updateProgress (jobId : Uuid) (progress : Nat) : InMemoryJobRepository :=
  (repo.replace jobId (fun _ => true) (fun job => { job with progress := progress, updatedAt := gen.now })).2

end InMemoryJobRepository

namespace InMemoryUserRepository

variable (gen : Generated) (repo : InMemoryUserRepository)

/-- `findByEmail(email)`: the first user of that address, in the order of insertion. -/
def findByEmail (email : String) : Option User := (OrderedMap.values repo.users).find? (fun user => user.email = email)

/-- `findById(id)`. -/
def findById (id : Uuid) : Option User := OrderedMap.get? repo.users id

/-- `create(data)`: whether the address is taken or not. -/
def create (email passwordHash : String) : User × InMemoryUserRepository :=
  let user : User :=
    { id := gen.id
      email := email
      passwordHash := passwordHash
      refreshTokenHash := none
      isGuest := false
      createdAt := gen.now
      updatedAt := gen.now }
  (user, ⟨OrderedMap.set repo.users user.id user⟩)

/-- Set the image of the user, if there is one. -/
def replace (userId : Uuid) (f : User → User) : InMemoryUserRepository :=
  ⟨(OrderedMap.replace repo.users userId (fun _ => true) f).2⟩

/-- `setRefreshTokenHash(userId, hash)`. -/
def setRefreshTokenHash (userId : Uuid) (hash : Option String) : InMemoryUserRepository :=
  repo.replace userId (fun user => { user with refreshTokenHash := hash, updatedAt := gen.now })

/-- `updatePassword(userId, passwordHash)`. -/
def updatePassword (userId : Uuid) (passwordHash : String) : InMemoryUserRepository :=
  repo.replace userId (fun user => { user with passwordHash := passwordHash, updatedAt := gen.now })

end InMemoryUserRepository

/-- The two doubles a test of the files and jobs makes. -/
structure Doubles where
  files : InMemoryFileRepository
  jobs : InMemoryJobRepository

namespace Doubles

/-- `new InMemoryFileRepository()` and `new InMemoryJobRepository()`. -/
def new : Doubles := ⟨⟨Table.empty⟩, ⟨Table.empty⟩⟩

/-- The doubles that hold the rows of the tables. -/
def of (db : Db) : Doubles := ⟨⟨OrderedMap.ofTable db.files⟩, ⟨OrderedMap.ofTable db.jobs⟩⟩

end Doubles

/-- What the doubles make of a call: its result, and the rows they hold after it. They reject nothing. -/
def RepoCall.double (gen : Generated) (d : Doubles) : {α : Type} → RepoCall α → α × Doubles
  | _, .createFile data =>
    let (row, files) := d.files.create gen data
    (row, { d with files := files })
  | _, .findFilesByUser userId opts => (d.files.findAllByUser userId opts, d)
  | _, .findFile userId fileId => (d.files.findById userId fileId, d)
  | _, .softDelete userId fileId =>
    let (row, files) := d.files.softDelete gen userId fileId
    (row, { d with files := files })
  | _, .markReady userId fileId =>
    let (row, files) := d.files.markReady gen userId fileId
    (row, { d with files := files })
  | _, .findExpiredPending before => (d.files.findExpiredPending before, d)
  | _, .findExpiredGuestFiles before => (d.files.findExpiredGuestFiles before, d)
  | _, .hardDelete userId fileId => ((), { d with files := d.files.hardDelete userId fileId })
  | _, .createJob data =>
    let (row, jobs) := d.jobs.create gen data
    (row, { d with jobs := jobs })
  | _, .findJobsByUser userId opts => (d.jobs.findAllByUser userId opts, d)
  | _, .findJob userId jobId => (d.jobs.findById userId jobId, d)
  | _, .updateStatus jobId status extra =>
    let (row, jobs) := d.jobs.updateStatus gen jobId status extra
    (row, { d with jobs := jobs })
  | _, .cancel userId jobId =>
    let (row, jobs) := d.jobs.cancel gen userId jobId
    (row, { d with jobs := jobs })
  | _, .updateProgress jobId progress => ((), { d with jobs := d.jobs.updateProgress gen jobId progress })

end FileProcessing
