import FileProcessing.Lib.Table
import FileProcessing.Types

/-!
# The database and its repositories

The tables `users`, `files` and `jobs` and the statements `FileRepository` and `JobRepository` run on them, each one atomic
statement. A statement returns `none` where PostgreSQL rejects it: a primary key that is taken, a value its column does not take,
a reference to no row. The times a statement writes (`defaultNow()`, `new Date()`) are the argument `now`, the time at which it is
executed.
-/

namespace FileProcessing

/-- The tables of the database. -/
structure Db where
  users : Table User.id
  files : Table FileRow.id
  jobs : Table JobRow.id

/-- The database before the first statement. -/
def Db.empty : Db := ⟨Table.empty, Table.empty, Table.empty⟩

/-- What is generated for a call: a UUID and the time. -/
structure Generated where
  id : Uuid
  now : Time
  deriving DecidableEq, Repr

/-- The argument of `FileRepository.create`, `typeof files.$inferInsert`. -/
structure FileValues where
  id : Option Uuid := none
  userId : Uuid
  originalName : String
  mimeType : String
  size : Int
  storagePath : String
  status : Option FileStatus := none
  createdAt : Option Time := none
  updatedAt : Option Time := none
  deriving DecidableEq, Repr

/-- The argument of `JobRepository.create`, `typeof jobs.$inferInsert`. -/
structure JobValues where
  id : Option Uuid := none
  fileId : Uuid
  userId : Uuid
  type : Option String := none
  status : Option JobStatus := none
  progress : Option Nat := none
  outputPath : Option String := none
  outputFileId : Option Uuid := none
  errorMessage : Option String := none
  createdAt : Option Time := none
  updatedAt : Option Time := none
  deriving DecidableEq, Repr

/-! ## What a column takes -/

/-- The character no text of PostgreSQL has. -/
def nul : Char := Char.ofNat 0

/-- A value of a `text` column. -/
def textIn (text : String) : Option String := if nul ∈ text.toList then none else some text

/-- A value of a `varchar(n)` column: a text that is too long is cut off where the rest of it is blank, and refused otherwise. -/
def varcharIn (n : Nat) (text : String) : Option String :=
  (textIn text).bind (fun text =>
    if text.length ≤ n then some text
    else if (text.toList.drop n).all (· == ' ') then some (String.ofList (text.toList.take n))
    else none)

/-- A value of a `bigint` column. -/
def bigintIn (n : Int) : Option Int := if -9223372036854775808 ≤ n ∧ n ≤ 9223372036854775807 then some n else none

/-- A value of an `integer` column. -/
def integerIn (n : Nat) : Option Nat := if n ≤ 2147483647 then some n else none

theorem textIn_self {text : String} : textIn text = some text ↔ nul ∉ text.toList := by
  unfold textIn
  split <;> simp_all

theorem varcharIn_self {n : Nat} {text : String} : varcharIn n text = some text ↔ nul ∉ text.toList ∧ text.length ≤ n := by
  by_cases hnul : nul ∈ text.toList
  · simp [varcharIn, textIn, hnul]
  by_cases hlen : text.length ≤ n
  · simp [varcharIn, textIn, hnul, hlen]
  simp only [varcharIn, textIn, hnul, if_false, Option.bind_some, hlen, not_false_eq_true, and_false, iff_false]
  split
  · intro h
    have htext := congrArg String.length (Option.some.inj h)
    rw [String.length_ofList, List.length_take, String.length_toList] at htext
    omega
  · exact fun h => nomatch h

theorem bigintIn_self {n : Int} : bigintIn n = some n ↔ -9223372036854775808 ≤ n ∧ n ≤ 9223372036854775807 := by
  unfold bigintIn
  split <;> simp_all

theorem integerIn_self {n : Nat} : integerIn n = some n ↔ n ≤ 2147483647 := by
  unfold integerIn
  split <;> simp_all

/-! ## Files -/

namespace FileRepository

/-- The row of an insert, with the defaults of the schema. -/
def rowOf (gen : Generated) (data : FileValues) : FileRow where
  id := data.id.getD gen.id
  userId := data.userId
  originalName := data.originalName
  mimeType := data.mimeType
  size := data.size
  storagePath := data.storagePath
  status := data.status.getD .pending
  createdAt := data.createdAt.getD gen.now
  updatedAt := data.updatedAt.getD gen.now

/-- The row as its columns take it. -/
def columns (row : FileRow) : Option FileRow :=
  (varcharIn 255 row.originalName).bind (fun originalName =>
    (varcharIn 127 row.mimeType).bind (fun mimeType =>
      (bigintIn row.size).bind (fun size =>
        (textIn row.storagePath).map (fun storagePath =>
          { row with originalName := originalName, mimeType := mimeType, size := size, storagePath := storagePath }))))

/-- `INSERT INTO files ... RETURNING`, of any values. -/
def insert (db : Db) (gen : Generated) (data : FileValues) : Option (FileRow × Db) :=
  (columns (rowOf gen data)).bind (fun row => (db.files.insert row).map (fun files => (row, { db with files := files })))

/-- The columns take the row as it is. -/
structure Kept (row : FileRow) : Prop where
  originalName : nul ∉ row.originalName.toList ∧ row.originalName.length ≤ 255
  mimeType : nul ∉ row.mimeType.toList ∧ row.mimeType.length ≤ 127
  size : -9223372036854775808 ≤ row.size ∧ row.size ≤ 9223372036854775807
  storagePath : nul ∉ row.storagePath.toList

theorem columns_self {row : FileRow} : columns row = some row ↔ Kept row := by
  unfold columns
  simp only [Option.bind_eq_some_iff, Option.map_eq_some_iff]
  constructor
  · rintro ⟨originalName, hname, mimeType, hmime, size, hsize, storagePath, hpath, hrow⟩
    obtain rfl : originalName = row.originalName := congrArg FileRow.originalName hrow
    obtain rfl : mimeType = row.mimeType := congrArg FileRow.mimeType hrow
    obtain rfl : size = row.size := congrArg FileRow.size hrow
    obtain rfl : storagePath = row.storagePath := congrArg FileRow.storagePath hrow
    exact ⟨varcharIn_self.mp hname, varcharIn_self.mp hmime, bigintIn_self.mp hsize, textIn_self.mp hpath⟩
  · intro h
    exact ⟨_, varcharIn_self.mpr h.originalName, _, varcharIn_self.mpr h.mimeType, _, bigintIn_self.mpr h.size, _,
      textIn_self.mpr h.storagePath, rfl⟩

instance : DecidablePred Kept := fun _ => decidable_of_iff _ columns_self

/-- A row the columns take as it is is inserted as it is. -/
theorem insert_of_kept {db : Db} {gen : Generated} {data : FileValues} (h : Kept (rowOf gen data)) :
    insert db gen data =
      (db.files.insert (rowOf gen data)).map (fun files => (rowOf gen data, { db with files := files })) := by
  rw [insert, columns_self.mpr h, Option.bind_some]

/-- The values the API gives. -/
def values (data : NewFile) : FileValues where
  userId := data.userId
  originalName := data.originalName
  mimeType := data.mimeType
  size := data.size
  storagePath := data.storagePath
  status := some data.status

/-- The values fit `original_name varchar(255)` and `mime_type varchar(127)`. -/
def fits (data : NewFile) : Bool := data.originalName.length ≤ 255 && data.mimeType.length ≤ 127

/-- The row an insert makes of its values. -/
def newRow (now : Time) (id : Uuid) (data : NewFile) : FileRow := rowOf ⟨id, now⟩ (values data)

@[simp] theorem newRow_userId (now : Time) (id : Uuid) (data : NewFile) : (newRow now id data).userId = data.userId := rfl

/-- `INSERT INTO files ... RETURNING`, of the values of the API and the worker; what a column would cut off is refused as well. -/
def create (db : Db) (now : Time) (id : Uuid) (data : NewFile) : Option (FileRow × Db) :=
  if Kept (newRow now id data) then insert db ⟨id, now⟩ (values data) else none

theorem create_eq (db : Db) (now : Time) (id : Uuid) (data : NewFile) :
    create db now id data = if Kept (newRow now id data) then
      (db.files.insert (newRow now id data)).map (fun files => (newRow now id data, { db with files := files })) else none := by
  by_cases h : Kept (newRow now id data)
  · rw [create, if_pos h, if_pos h]
    exact insert_of_kept h
  · rw [create, if_neg h, if_neg h]

/-- What is created fits. -/
theorem fits_of_kept {now : Time} {id : Uuid} {data : NewFile} (h : Kept (newRow now id data)) : fits data = true := by
  rw [fits, Bool.and_eq_true]
  exact ⟨decide_eq_true h.originalName.2, decide_eq_true h.mimeType.2⟩

/-- `WHERE id = fileId AND user_id = userId`. -/
def owned (userId fileId : Uuid) (file : FileRow) : Bool := file.id = fileId && file.userId = userId

/-- `SELECT ... WHERE id AND user_id LIMIT 1`. -/
def findById (db : Db) (userId fileId : Uuid) : Option FileRow := (db.files.select (owned userId fileId)).head?

/-- `UPDATE files SET status = 'deleted' WHERE id AND user_id RETURNING`: no guard on the status. -/
def softDelete (db : Db) (now : Time) (userId fileId : Uuid) : Option FileRow × Db :=
  let set (file : FileRow) : FileRow := { file with status := .deleted, updatedAt := now }
  (((db.files.select (owned userId fileId)).head?).map set,
    { db with files := db.files.update (owned userId fileId) set (fun _ => rfl) })

/-- `UPDATE files SET status = 'ready' WHERE id AND user_id AND status = 'pending' RETURNING`. -/
def markReady (db : Db) (now : Time) (userId fileId : Uuid) : Option FileRow × Db :=
  let set (file : FileRow) : FileRow := { file with status := .ready, updatedAt := now }
  let p (file : FileRow) : Bool := owned userId fileId file && file.status = .pending
  (((db.files.select p).head?).map set, { db with files := db.files.update p set (fun _ => rfl) })

/-- `SELECT ... WHERE status = 'pending' AND created_at < before`. -/
def findExpiredPending (db : Db) (before : Time) : List FileRow :=
  db.files.select (fun file => file.status = .pending && file.createdAt < before)

/-- A job of the file is pending or active. -/
def hasOpenJob (db : Db) (fileId : Uuid) : Bool :=
  db.jobs.rows.any (fun job => job.fileId = fileId && (job.status = .pending || job.status = .active))

/-- `SELECT ... WHERE` no user row has the owner's id, `status = 'ready' AND updated_at < before` and no job of the file is
pending or active. -/
def findExpiredGuestFiles (db : Db) (before : Time) : List FileRow :=
  db.files.select (fun file => !db.users.rows.any (fun user => user.id = file.userId) && file.status = .ready &&
    file.updatedAt < before && !hasOpenJob db file.id)

/-- `ON DELETE SET NULL` on `jobs.output_file_id`. -/
def clearOutput (deleted : FileRow → Bool) (db : Db) (job : JobRow) : JobRow :=
  if db.files.rows.any (fun file => deleted file && job.outputFileId = some file.id) then
    { job with outputFileId := none }
  else job

/-- `clearOutput` keeps the id. -/
theorem clearOutput_id (deleted : FileRow → Bool) (db : Db) (job : JobRow) :
    (clearOutput deleted db job).id = job.id := by
  unfold clearOutput
  split <;> rfl

/-- `DELETE FROM files WHERE id AND user_id`, with `ON DELETE CASCADE` on `jobs.file_id`. -/
def hardDelete (db : Db) (userId fileId : Uuid) : Db where
  users := db.users
  files := db.files.delete (owned userId fileId)
  jobs := (db.jobs.delete (fun job => db.files.rows.any (fun file => owned userId fileId file && job.fileId = file.id))).update
    (fun _ => true) (clearOutput (owned userId fileId) db) (clearOutput_id _ db)

end FileRepository

/-! ## Jobs -/

namespace JobRepository

/-- The row of an insert, with the defaults of the schema. -/
def rowOf (gen : Generated) (data : JobValues) : JobRow where
  id := data.id.getD gen.id
  fileId := data.fileId
  userId := data.userId
  type := data.type.getD "default"
  status := data.status.getD .pending
  progress := data.progress.getD 0
  outputPath := data.outputPath
  outputFileId := data.outputFileId
  errorMessage := data.errorMessage
  createdAt := data.createdAt.getD gen.now
  updatedAt := data.updatedAt.getD gen.now

/-- A value of a `text` column that may be null. -/
def nullableText : Option String → Option (Option String)
  | none => some none
  | some text => (textIn text).map some

/-- The row as its columns take it. -/
def columns (row : JobRow) : Option JobRow :=
  (varcharIn 63 row.type).bind (fun type =>
    (integerIn row.progress).bind (fun progress =>
      (nullableText row.outputPath).bind (fun outputPath =>
        (nullableText row.errorMessage).map (fun errorMessage =>
          { row with type := type, progress := progress, outputPath := outputPath, errorMessage := errorMessage }))))

/-- The files a row refers to are there. -/
def refersToFiles (db : Db) (row : JobRow) : Bool :=
  db.files.rows.any (fun file => file.id = row.fileId) &&
    row.outputFileId.all (fun fileId => db.files.rows.any (fun file => file.id = fileId))

/-- `INSERT INTO jobs ... RETURNING`, of any values. -/
def insert (db : Db) (gen : Generated) (data : JobValues) : Option (JobRow × Db) :=
  (columns (rowOf gen data)).bind (fun row =>
    if refersToFiles db row then (db.jobs.insert row).map (fun jobs => (row, { db with jobs := jobs })) else none)

theorem nullableText_self {text : Option String} : nullableText text = some text ↔ ∀ t ∈ text, nul ∉ t.toList := by
  cases text with
  | none => simp [nullableText]
  | some text => simp [nullableText, textIn_self]

/-- The columns take the row as it is. -/
structure Kept (row : JobRow) : Prop where
  type : nul ∉ row.type.toList ∧ row.type.length ≤ 63
  progress : row.progress ≤ 2147483647
  outputPath : ∀ text ∈ row.outputPath, nul ∉ text.toList
  errorMessage : ∀ text ∈ row.errorMessage, nul ∉ text.toList

theorem columns_self {row : JobRow} : columns row = some row ↔ Kept row := by
  unfold columns
  simp only [Option.bind_eq_some_iff, Option.map_eq_some_iff]
  constructor
  · rintro ⟨type, htype, progress, hprogress, outputPath, hpath, errorMessage, hmessage, hrow⟩
    obtain rfl : type = row.type := congrArg JobRow.type hrow
    obtain rfl : progress = row.progress := congrArg JobRow.progress hrow
    obtain rfl : outputPath = row.outputPath := congrArg JobRow.outputPath hrow
    obtain rfl : errorMessage = row.errorMessage := congrArg JobRow.errorMessage hrow
    exact ⟨varcharIn_self.mp htype, integerIn_self.mp hprogress, nullableText_self.mp hpath, nullableText_self.mp hmessage⟩
  · intro h
    exact ⟨_, varcharIn_self.mpr h.type, _, integerIn_self.mpr h.progress, _, nullableText_self.mpr h.outputPath, _,
      nullableText_self.mpr h.errorMessage, rfl⟩

instance : DecidablePred Kept := fun _ => decidable_of_iff _ columns_self

/-- A row the columns take as it is is inserted as it is, where the files it refers to are there. -/
theorem insert_of_kept {db : Db} {gen : Generated} {data : JobValues} (h : Kept (rowOf gen data))
    (hrefers : refersToFiles db (rowOf gen data) = true) :
    insert db gen data = (db.jobs.insert (rowOf gen data)).map (fun jobs => (rowOf gen data, { db with jobs := jobs })) := by
  rw [insert, columns_self.mpr h, Option.bind_some, if_pos hrefers]

/-- It is refused where they are not. -/
theorem insert_refused {db : Db} {gen : Generated} {data : JobValues} (h : Kept (rowOf gen data))
    (hrefers : ¬ refersToFiles db (rowOf gen data) = true) : insert db gen data = none := by
  rw [insert, columns_self.mpr h, Option.bind_some, if_neg hrefers]

/-- The values the API and the worker give. -/
def values (data : NewJob) : JobValues where
  fileId := data.fileId
  userId := data.userId
  type := some data.type
  status := some data.status
  progress := some data.progress

/-- The type fits `type varchar(63)`. -/
def fits (data : NewJob) : Bool := data.type.length ≤ 63

/-- The row an insert makes of its values. -/
def newRow (now : Time) (id : Uuid) (data : NewJob) : JobRow := rowOf ⟨id, now⟩ (values data)

@[simp] theorem newRow_userId (now : Time) (id : Uuid) (data : NewJob) : (newRow now id data).userId = data.userId := rfl

/-- `INSERT INTO jobs ... RETURNING`, of the values of the API; what a column would cut off is refused as well. -/
def create (db : Db) (now : Time) (id : Uuid) (data : NewJob) : Option (JobRow × Db) :=
  if Kept (newRow now id data) then insert db ⟨id, now⟩ (values data) else none

theorem create_eq (db : Db) (now : Time) (id : Uuid) (data : NewJob) :
    create db now id data = if Kept (newRow now id data) ∧ db.files.rows.any (fun file => file.id = data.fileId) = true then
      (db.jobs.insert (newRow now id data)).map (fun jobs => (newRow now id data, { db with jobs := jobs })) else none := by
  have hrefers : refersToFiles db (newRow now id data) = db.files.rows.any (fun file => file.id = data.fileId) := Bool.and_true _
  by_cases h : Kept (newRow now id data)
  · by_cases hfile : db.files.rows.any (fun file => file.id = data.fileId) = true
    · rw [create, if_pos h, if_pos ⟨h, hfile⟩]
      exact insert_of_kept h (hrefers.trans hfile)
    · rw [create, if_pos h, if_neg (fun hboth => hfile hboth.2)]
      exact insert_refused h (fun htrue => hfile (hrefers.symm.trans htrue))
  · rw [create, if_neg h, if_neg (fun hboth => h hboth.1)]

/-- What is created fits. -/
theorem fits_of_kept {now : Time} {id : Uuid} {data : NewJob} (h : Kept (newRow now id data)) : fits data = true :=
  decide_eq_true h.type.2

/-- `WHERE id = jobId AND user_id = userId`. -/
def owned (userId jobId : Uuid) (job : JobRow) : Bool := job.id = jobId && job.userId = userId

/-- `SELECT ... WHERE id AND user_id LIMIT 1`. -/
def findById (db : Db) (userId jobId : Uuid) : Option JobRow := (db.jobs.select (owned userId jobId)).head?

/-- `SET status, updatedAt, ...extra`. -/
def setStatus (now : Time) (status : JobStatus) (extra : JobExtra) (job : JobRow) : JobRow where
  id := job.id
  fileId := job.fileId
  userId := job.userId
  type := job.type
  status := status
  progress := extra.progress.getD job.progress
  outputPath := extra.outputPath.or job.outputPath
  outputFileId := extra.outputFileId.or job.outputFileId
  errorMessage := extra.errorMessage.or job.errorMessage
  createdAt := job.createdAt
  updatedAt := now

/-- `setStatus` keeps the id. -/
theorem setStatus_id (now : Time) (status : JobStatus) (extra : JobExtra) (job : JobRow) :
    (setStatus now status extra job).id = job.id := rfl

/-- The output file an update writes is a row of `files`. -/
def outputExists (db : Db) (extra : JobExtra) : Bool :=
  match extra.outputFileId with
  | none => true
  | some fileId => db.files.rows.any (fun file => file.id = fileId)

/-- `UPDATE jobs SET status, ... WHERE id RETURNING`: no guard on the status, nor on the owner. An update of no row breaks no
reference. -/
def updateStatus (db : Db) (now : Time) (jobId : Uuid) (status : JobStatus) (extra : JobExtra) :
    Option (Option JobRow × Db) :=
  let p (job : JobRow) : Bool := job.id = jobId
  if (db.jobs.select p).isEmpty || outputExists db extra then
    some (((db.jobs.select p).head?).map (setStatus now status extra),
      { db with jobs := db.jobs.update p (setStatus now status extra) (setStatus_id now status extra) })
  else none

/-- `UPDATE jobs SET status = 'failed', error_message = 'Cancelled by user' WHERE id AND user_id AND status = 'pending'
RETURNING`. -/
def cancel (db : Db) (now : Time) (userId jobId : Uuid) : Option JobRow × Db :=
  let set (job : JobRow) : JobRow :=
    { job with status := .failed, updatedAt := now, errorMessage := some "Cancelled by user" }
  let p (job : JobRow) : Bool := owned userId jobId job && job.status = .pending
  (((db.jobs.select p).head?).map set, { db with jobs := db.jobs.update p set (fun _ => rfl) })

/-- `UPDATE jobs SET progress WHERE id`. -/
def updateProgress (db : Db) (now : Time) (jobId : Uuid) (progress : Nat) : Db :=
  let set (job : JobRow) : JobRow := { job with progress := progress, updatedAt := now }
  { db with jobs := db.jobs.update (fun job => job.id = jobId) set (fun _ => rfl) }

end JobRepository

end FileProcessing
