import FileProcessing.Api.FileService
import FileProcessing.Api.JobService

/-!
# The methods of `FileService` and `JobService` that only read

`list`, `findById` and `getDownloadStream`, with the two `findAllByUser` the lists call. `ilike` is PostgreSQL's `ILIKE`, of a
value and a pattern; the rows of a list come sorted by their creation, rows of one time in the order the environment chooses. The
schema of the query bounds `page` and `limit` below by 1, and `limit` above by 100.
-/

namespace FileProcessing

/-- The options of a list of files. -/
structure ListOptions where
  page : Nat
  limit : Nat
  search : Option String
  deriving DecidableEq, Repr

/-- The options of a list of jobs. -/
structure ListJobOptions where
  page : Nat
  limit : Nat
  status : Option JobStatus
  fileId : Option Uuid
  deriving DecidableEq, Repr

/-- `ORDER BY created_at DESC LIMIT limit OFFSET (page - 1) * limit`: the rows of one time come in the order in which they are named. -/
def page {α : Type} (createdAt : α → Time) (id : α → Uuid) (order : List Uuid) (page limit : Nat) (rows : List α) : List α :=
  Pages.window page limit (Pages.descending createdAt (inOrder id order rows))

/-- The rows of a page are of the rows listed. -/
theorem mem_of_page {α : Type} {createdAt : α → Time} {id : α → Uuid} {order : List Uuid} {rows : List α} {p limit : Nat} {row : α}
    (h : row ∈ page createdAt id order p limit rows) : row ∈ rows := by
  have hmem := List.mem_of_mem_drop (List.mem_of_mem_take h)
  exact mem_inOrder.1 (List.mem_mergeSort.1 hmem)

/-- A page does not depend on how the table holds the rows. -/
theorem page_congr {α : Type} {createdAt : α → Time} {id : α → Uuid} {order : List Uuid} {rows rows' : List α} {p limit : Nat}
    (hnodup : (rows.map id).Nodup) (hperm : rows.Perm rows') :
    page createdAt id order p limit rows = page createdAt id order p limit rows' := by
  rw [page, page, inOrder_congr order hnodup hperm]

/-- The database refuses a negative offset, and what is no `bigint`. -/
def offsetIn (page limit : Nat) : Bool :=
  (1 ≤ page || limit = 0) && (bigintIn limit).isSome && (bigintIn ((page - 1) * limit : Nat)).isSome

/-- The pattern of a search is a text. -/
def ListOptions.searchIn (opts : ListOptions) : Bool := opts.search.all (fun search => (textIn search).isSome)

/-- A list of files the database takes. -/
def ListOptions.accepted (opts : ListOptions) : Bool := offsetIn opts.page opts.limit && opts.searchIn

namespace FileRepository

/-- `WHERE user_id AND status <> 'deleted'`, and `AND original_name ILIKE '%search%'` where a search is given. -/
def listed (ilike : String → String → Bool) (userId : Uuid) (opts : ListOptions) (file : FileRow) : Bool :=
  file.userId = userId && file.status ≠ .deleted &&
    match opts.search with
    | none | some "" => true
    | some search => ilike file.originalName ("%" ++ search ++ "%")

/-- The rows a list of files is of. -/
def matching (ilike : String → String → Bool) (db : Db) (userId : Uuid) (opts : ListOptions) : List FileRow :=
  db.files.select (listed ilike userId opts)

/-- The `SELECT` of `findAllByUser`. -/
def selectByUser (ilike : String → String → Bool) (order : List Uuid) (db : Db) (userId : Uuid) (opts : ListOptions) :
    Except Err (List FileRow) :=
  if opts.accepted then
    .ok (page FileRow.createdAt FileRow.id order opts.page opts.limit (matching ilike db userId opts))
  else .error rejected

theorem selectByUser_ok {ilike : String → String → Bool} {order : List Uuid} {db : Db} {userId : Uuid} {opts : ListOptions}
    {data : List FileRow} (h : selectByUser ilike order db userId opts = .ok data) :
    data = page FileRow.createdAt FileRow.id order opts.page opts.limit (matching ilike db userId opts) := by
  unfold selectByUser at h
  split at h
  · exact (Except.ok.inj h).symm
  · cases h

/-- The `SELECT count(*)` of `findAllByUser`. -/
def countByUser (ilike : String → String → Bool) (db : Db) (userId : Uuid) (opts : ListOptions) : Except Err Nat :=
  if opts.searchIn then .ok (matching ilike db userId opts).length else .error rejected

end FileRepository

namespace JobRepository

/-- `WHERE user_id`, and `AND status` and `AND file_id` where they are given. -/
def listed (userId : Uuid) (opts : ListJobOptions) (job : JobRow) : Bool :=
  job.userId = userId && opts.status.all (fun status => job.status = status) &&
    opts.fileId.all (fun fileId => job.fileId = fileId)

/-- The rows a list of jobs is of. -/
def matching (db : Db) (userId : Uuid) (opts : ListJobOptions) : List JobRow := db.jobs.select (listed userId opts)

/-- The `SELECT` of `findAllByUser`. -/
def selectByUser (order : List Uuid) (db : Db) (userId : Uuid) (opts : ListJobOptions) : Except Err (List JobRow) :=
  if offsetIn opts.page opts.limit then
    .ok (page JobRow.createdAt JobRow.id order opts.page opts.limit (matching db userId opts))
  else .error rejected

theorem selectByUser_ok {order : List Uuid} {db : Db} {userId : Uuid} {opts : ListJobOptions} {data : List JobRow}
    (h : selectByUser order db userId opts = .ok data) :
    data = page JobRow.createdAt JobRow.id order opts.page opts.limit (matching db userId opts) := by
  unfold selectByUser at h
  split at h
  · exact (Except.ok.inj h).symm
  · cases h

/-- The `SELECT count(*)` of `findAllByUser`. -/
def countByUser (db : Db) (userId : Uuid) (opts : ListJobOptions) : Nat := (matching db userId opts).length

end JobRepository

/-- An awaited call of the methods that read, with the type of its reply. -/
inductive ReadCall : Type → Type 1 where
  | call {α : Type} (c : Call α) : ReadCall α
  | selectFiles (userId : Uuid) (opts : ListOptions) : ReadCall (List FileRow)
  | countFiles (userId : Uuid) (opts : ListOptions) : ReadCall Nat
  | selectJobs (userId : Uuid) (opts : ListJobOptions) : ReadCall (List JobRow)
  | countJobs (userId : Uuid) (opts : ListJobOptions) : ReadCall Nat

/-- Run a call: its reply and the world after it. -/
def ReadCall.exec (ilike : String → String → Bool) (ch : Choice) (w : World) : {α : Type} → ReadCall α → Except Err α × World
  | _, .call c => c.exec ch w
  | _, .selectFiles userId opts => (FileRepository.selectByUser ilike ch.order w.db userId opts, w)
  | _, .countFiles userId opts => (FileRepository.countByUser ilike w.db userId opts, w)
  | _, .selectJobs userId opts => (JobRepository.selectByUser ch.order w.db userId opts, w)
  | _, .countJobs userId opts => (.ok (JobRepository.countByUser w.db userId opts), w)

/-- What a method that reads does next. -/
structure ReadAwait (T : Type) where
  {α : Type}
  call : ReadCall α
  resume : Except Err α → T

/-- Change what the method becomes. -/
def ReadAwait.map {T U : Type} (aw : ReadAwait T) (f : T → U) : ReadAwait U := ⟨aw.call, fun r => f (aw.resume r)⟩

/-- A page of rows, with `total`, `page`, `limit` and `totalPages` of its `meta`. -/
structure Paginated (α : Type) where
  data : List α
  total : Nat
  page : Nat
  limit : Nat
  totalPages : Nat
  deriving DecidableEq, Repr

/-- The result of a list, `Math.ceil(total / limit)` pages in all. -/
def paginated {α : Type} (page limit : Nat) (data : List α) (total : Nat) : Paginated α where
  data := data
  total := total
  page := page
  limit := limit
  totalPages := (total + limit - 1) / limit

/-- The suspension points of a `list`. The two statements of its `findAllByUser` go out together; the one or the other is answered
first. -/
inductive Listing (α : Type) where
  | findAllByUser
  | count (data : List α)
  | select (total : Nat)
  | returned (page : Paginated α)
  | threw (err : Err)
  deriving DecidableEq, Repr

/-- The body the two lists share. -/
def listing {α : Type} (select : ReadCall (List α)) (count : ReadCall Nat) (page limit : Nat) (countFirst : Bool) :
    Listing α → Option (ReadAwait (Listing α))
  | .findAllByUser =>
    if countFirst then some
      { call := count
        resume := fun
          | .error e => .threw e
          | .ok total => .select total }
    else some
      { call := select
        resume := fun
          | .error e => .threw e
          | .ok data => .count data }
  | .count data => some
    { call := count
      resume := fun
        | .error e => .threw e
        | .ok total => .returned (paginated page limit data total) }
  | .select total => some
    { call := select
      resume := fun
        | .error e => .threw e
        | .ok data => .returned (paginated page limit data total) }
  | .returned _ => none
  | .threw _ => none

namespace FileService

/-- `FileService.list`. -/
def list (userId : Uuid) (opts : ListOptions) (countFirst : Bool) : Listing FileRow → Option (ReadAwait (Listing FileRow)) :=
  listing (.selectFiles userId opts) (.countFiles userId opts) opts.page opts.limit countFirst

/-- The suspension points of `findById`. -/
inductive FindById where
  | findById
  | returned (file : FileRow)
  | threw (err : Err)
  deriving DecidableEq, Repr

/-- `FileService.findById`. -/
def findById (userId fileId : Uuid) : FindById → Option (ReadAwait FindById)
  | .findById => some
    { call := .call (.findFile userId fileId)
      resume := fun
        | .error e => .threw e
        | .ok none => .threw (notFound "FILE_NOT_FOUND" "File not found")
        | .ok (some file) =>
          if file.status = .deleted then .threw (notFound "FILE_NOT_FOUND" "File not found") else .returned file }
  | .returned _ => none
  | .threw _ => none

/-- The suspension points of `getDownloadStream`. -/
inductive GetDownloadStream where
  | findById
  | getObject (file : FileRow)
  | returned (stream : StoredObject) (file : FileRow)
  | threw (err : Err)
  deriving DecidableEq, Repr

/-- `FileService.getDownloadStream`, with the `findById` it begins with. -/
def getDownloadStream (userId fileId : Uuid) : GetDownloadStream → Option (ReadAwait GetDownloadStream)
  | .findById => some
    { call := .call (.findFile userId fileId)
      resume := fun
        | .error e => .threw e
        | .ok none => .threw (notFound "FILE_NOT_FOUND" "File not found")
        | .ok (some file) =>
          if file.status = .deleted then .threw (notFound "FILE_NOT_FOUND" "File not found") else .getObject file }
  | .getObject file => some
    { call := .call (.getObject file.storagePath)
      resume := fun
        | .error e => .threw e
        | .ok stream => .returned stream file }
  | .returned _ _ => none
  | .threw _ => none

end FileService

namespace JobService

/-- `JobService.list`. -/
def list (userId : Uuid) (opts : ListJobOptions) (countFirst : Bool) : Listing JobRow → Option (ReadAwait (Listing JobRow)) :=
  listing (.selectJobs userId opts) (.countJobs userId opts) opts.page opts.limit countFirst

/-- The suspension points of `findById`. -/
inductive FindById where
  | findById
  | returned (job : JobRow)
  | threw (err : Err)
  deriving DecidableEq, Repr

/-- `JobService.findById`. -/
def findById (userId jobId : Uuid) : FindById → Option (ReadAwait FindById)
  | .findById => some
    { call := .call (.findJob userId jobId)
      resume := fun
        | .error e => .threw e
        | .ok none => .threw (notFound "JOB_NOT_FOUND" "Job not found")
        | .ok (some job) => .returned job }
  | .returned _ => none
  | .threw _ => none

end JobService

/-- A call that reads, for the user who makes it. -/
inductive ReadRequest where
  | listFiles (userId : Uuid) (opts : ListOptions)
  | findFile (userId fileId : Uuid)
  | downloadFile (userId fileId : Uuid)
  | listJobs (userId : Uuid) (opts : ListJobOptions)
  | findJob (userId jobId : Uuid)
  deriving DecidableEq, Repr

/-- The user a call that reads is made for. -/
def ReadRequest.userId : ReadRequest → Uuid
  | .listFiles userId _ | .findFile userId _ | .downloadFile userId _ | .listJobs userId _ | .findJob userId _ => userId

/-- A call that reads, at one of its suspension points. -/
inductive ReadTask where
  | listFiles (userId : Uuid) (opts : ListOptions) (p : Listing FileRow)
  | findFile (userId fileId : Uuid) (p : FileService.FindById)
  | downloadFile (userId fileId : Uuid) (p : FileService.GetDownloadStream)
  | listJobs (userId : Uuid) (opts : ListJobOptions) (p : Listing JobRow)
  | findJob (userId jobId : Uuid) (p : JobService.FindById)
  deriving DecidableEq, Repr

/-- The task a call that reads starts. -/
def ReadRequest.task : ReadRequest → ReadTask
  | .listFiles userId opts => .listFiles userId opts .findAllByUser
  | .findFile userId fileId => .findFile userId fileId .findById
  | .downloadFile userId fileId => .downloadFile userId fileId .findById
  | .listJobs userId opts => .listJobs userId opts .findAllByUser
  | .findJob userId jobId => .findJob userId jobId .findById

/-- What a call that reads does next; `countFirst` says which of the two statements of a list is answered first. -/
def ReadTask.next (countFirst : Bool) : ReadTask → Option (ReadAwait ReadTask)
  | .listFiles userId opts p => (FileService.list userId opts countFirst p).map (·.map (.listFiles userId opts))
  | .findFile userId fileId p => (FileService.findById userId fileId p).map (·.map (.findFile userId fileId))
  | .downloadFile userId fileId p => (FileService.getDownloadStream userId fileId p).map (·.map (.downloadFile userId fileId))
  | .listJobs userId opts p => (JobService.list userId opts countFirst p).map (·.map (.listJobs userId opts))
  | .findJob userId jobId p => (JobService.findById userId jobId p).map (·.map (.findJob userId jobId))

end FileProcessing
