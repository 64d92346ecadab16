import FileProcessing.Db

/-!
# What the processes share, and the calls they make on it

PostgreSQL, the MinIO bucket, the BullMQ queue and the Redis channels, with the clock. A `Call` is one awaited call of the
source: a repository method, a storage request, an enqueue, a publish, or work that touches nothing shared (`sharp`, a stream,
a timer). Every call is one atomic step (`Call.exec`). Ids are random UUIDs, and no UUID is generated twice: an insert takes
the id it is given and is rejected when that id has been issued before.
-/

namespace FileProcessing

/-- An object of the bucket. -/
structure StoredObject where
  size : Nat
  deriving DecidableEq, Repr

/-- A signed POST policy: the one key it admits, until when, and the lengths it admits. -/
structure PostPolicy where
  key : String
  expires : Time
  minLength : Int
  maxLength : Int
  contentType : String
  deriving DecidableEq, Repr

/-- Where a job stands in BullMQ: waiting (a delayed retry included), locked by the attempt that runs as a given task,
finished or given up. -/
inductive BullState where
  | waiting
  | active (task : Nat)
  | completed
  | failed
  deriving DecidableEq, Repr

/-- A job of the queue. -/
structure BullJob where
  payload : JobPayload
  attemptsMade : Nat
  state : BullState
  deriving DecidableEq, Repr

/-- `attempts` of `defaultJobOptions`. -/
def attempts : Nat := 3

/-- What the API, the worker and the clients share. `issued` holds every UUID generated so far, `sessions` the user ids an
access token was issued for, `policies` the policies that were signed, and `published` every message, the oldest first. -/
structure World where
  db : Db
  bucket : String → Option StoredObject
  queue : List BullJob
  published : List Message
  policies : List PostPolicy
  issued : List Uuid
  sessions : List Uuid
  now : Time

/-- The world before the first call. -/
def World.empty : World where
  db := Db.empty
  bucket := fun _ => none
  queue := []
  published := []
  policies := []
  issued := []
  sessions := []
  now := 0

/-- How `sharp` encodes its output. -/
structure Encoder where
  format : String
  quality : Option Nat
  deriving DecidableEq, Repr

/-- An awaited call, with the type of its reply. -/
inductive Call : Type → Type where
  | dateNow : Call Time
  | createFile (data : NewFile) : Call FileRow
  | findFile (userId fileId : Uuid) : Call (Option FileRow)
  | softDelete (userId fileId : Uuid) : Call (Option FileRow)
  | markReady (userId fileId : Uuid) : Call (Option FileRow)
  | findExpiredPending (before : Time) : Call (List FileRow)
  | findExpiredGuestFiles (before : Time) : Call (List FileRow)
  | hardDelete (userId fileId : Uuid) : Call Unit
  | createJob (data : NewJob) : Call JobRow
  | findJob (userId jobId : Uuid) : Call (Option JobRow)
  | updateStatus (jobId : Uuid) (status : JobStatus) (extra : JobExtra) : Call (Option JobRow)
  | cancelJob (userId jobId : Uuid) : Call (Option JobRow)
  | updateProgress (jobId : Uuid) (progress : Nat) : Call Unit
  | presignedPostPolicy (policy : PostPolicy) : Call Unit
  | statObject (key : String) : Call StoredObject
  | getObject (key : String) : Call StoredObject
  | putObject (key : String) (size : Nat) : Call Unit
  | removeObject (key : String) : Call Unit
  | queueAdd (payload : JobPayload) : Call Unit
  | publish (message : Message) : Call Unit
  | sharp (encoder : Encoder) : Call Nat
  | readStream : Call Unit
  | setTimeout : Call Unit
  | bullProgress : Call Unit

/-- What the environment supplies to a call: the UUID the database generates, the length of the bytes `sharp` returns, and the order
in which the database comes to rows where the statement leaves it open. -/
structure Choice where
  id : Uuid
  size : Nat
  order : List Uuid
  deriving DecidableEq, Repr

/-- The call is local to its process and cannot fail. -/
def Call.infallible : {α : Type} → Call α → Bool
  | _, .dateNow | _, .setTimeout => true
  | _, _ => false

/-- A statement the database rejects. -/
def rejected : Err := .error "rejected by the database"

/-- The missing key. -/
def noSuchKey : Err := .error "NoSuchKey"

/-- The bucket with an object put under a key, or removed from it. -/
def World.setObject (w : World) (key : String) (object : Option StoredObject) : World :=
  { w with bucket := fun k => if k = key then object else w.bucket k }

/-- Record an id as issued. -/
def World.issue (w : World) (id : Uuid) : World := { w with issued := id :: w.issued }

/-- Run a call that does not fail for reasons of its own: its reply and the world after it. A call that throws here throws in
every run (a rejected statement, a missing key); a call may also fail in transit, and then does nothing. -/
def Call.exec (ch : Choice) (w : World) : {α : Type} → Call α → Except Err α × World
  | _, .dateNow => (.ok w.now, w)
  | _, .createFile data =>
    if ch.id ∈ w.issued then (.error rejected, w)
    else match FileRepository.create w.db w.now ch.id data with
      | none => (.error rejected, w)
      | some (row, db) => (.ok row, { w with db := db }.issue ch.id)
  | _, .findFile userId fileId => (.ok (FileRepository.findById w.db userId fileId), w)
  | _, .softDelete userId fileId =>
    let (row, db) := FileRepository.softDelete w.db w.now userId fileId
    (.ok row, { w with db := db })
  | _, .markReady userId fileId =>
    let (row, db) := FileRepository.markReady w.db w.now userId fileId
    (.ok row, { w with db := db })
  | _, .findExpiredPending before => (.ok (inOrder FileRow.id ch.order (FileRepository.findExpiredPending w.db before)), w)
  | _, .findExpiredGuestFiles before => (.ok (inOrder FileRow.id ch.order (FileRepository.findExpiredGuestFiles w.db before)), w)
  | _, .hardDelete userId fileId => (.ok (), { w with db := FileRepository.hardDelete w.db userId fileId })
  | _, .createJob data =>
    if ch.id ∈ w.issued then (.error rejected, w)
    else match JobRepository.create w.db w.now ch.id data with
      | none => (.error rejected, w)
      | some (row, db) => (.ok row, { w with db := db }.issue ch.id)
  | _, .findJob userId jobId => (.ok (JobRepository.findById w.db userId jobId), w)
  | _, .updateStatus jobId status extra =>
    match JobRepository.updateStatus w.db w.now jobId status extra with
    | none => (.error rejected, w)
    | some (row, db) => (.ok row, { w with db := db })
  | _, .cancelJob userId jobId =>
    let (row, db) := JobRepository.cancel w.db w.now userId jobId
    (.ok row, { w with db := db })
  | _, .updateProgress jobId progress => (.ok (), { w with db := JobRepository.updateProgress w.db w.now jobId progress })
  | _, .presignedPostPolicy policy => (.ok (), { w with policies := policy :: w.policies })
  | _, .statObject key =>
    match w.bucket key with
    | none => (.error noSuchKey, w)
    | some object => (.ok object, w)
  | _, .getObject key =>
    match w.bucket key with
    | none => (.error noSuchKey, w)
    | some object => (.ok object, w)
  | _, .putObject key size => (.ok (), w.setObject key (some ⟨size⟩))
  | _, .removeObject key => (.ok (), w.setObject key none)
  | _, .queueAdd payload => (.ok (), { w with queue := w.queue ++ [⟨payload, 0, .waiting⟩] })
  | _, .publish message => (.ok (), { w with published := w.published ++ [message] })
  | _, .sharp _ => (.ok ch.size, w)
  | _, .readStream => (.ok (), w)
  | _, .setTimeout => (.ok (), w)
  | _, .bullProgress => (.ok (), w)

/-- What an async function does next: the call it awaits, and what it becomes when the call settles. -/
structure Await (T : Type) where
  {α : Type}
  call : Call α
  resume : Except Err α → T

/-- Change what the function becomes. -/
def Await.map {T U : Type} (aw : Await T) (f : T → U) : Await U := ⟨aw.call, fun r => f (aw.resume r)⟩

end FileProcessing
