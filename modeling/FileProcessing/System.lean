import FileProcessing.Lib.Lts
import FileProcessing.Lib.Pool
import FileProcessing.Api.JobService
import FileProcessing.Worker.Cleanup
import FileProcessing.Worker.Processors

/-!
# The system: the requests, the attempts and the sweeps, interleaved

A state is the shared world and the pool of tasks: the API calls in progress, the attempts BullMQ runs, the `failed`
listeners, the reports a failed `Promise.all` left behind and the sweeps. A task that has returned or thrown stays in the
pool, so the pool also says what has ended and how. A step lets one task make its call (`exec`) or see it fail in transit
(`reject`), or is one of the environment: a request arrives, a client uploads under a policy, BullMQ delivers a job, takes
the lock from a stalled attempt or settles an attempt that has ended, a session or an account begins, time passes.
-/

namespace FileProcessing

/-- An API call, with its authenticated user. -/
inductive Request where
  | createUploadUrl (userId : Uuid) (input : FileService.CreateUploadUrlInput)
  | confirmUpload (userId fileId : Uuid)
  | deleteFile (userId fileId : Uuid)
  | createJob (userId fileId : Uuid) (type : String) (options : Option JobOptions)
  | cancelJob (userId jobId : Uuid)
  deriving DecidableEq, Repr

/-- The user a request is made for. -/
def Request.userId : Request → Uuid
  | .createUploadUrl userId _ | .confirmUpload userId _ | .deleteFile userId _ | .createJob userId _ _ _
  | .cancelJob userId _ => userId

/-- A task: an async function with its arguments, at one of its suspension points. An attempt carries the place of its job in
the queue and whether BullMQ has settled it. -/
inductive Task where
  | createUploadUrl (userId : Uuid) (input : FileService.CreateUploadUrlInput) (p : FileService.CreateUploadUrl)
  | confirmUpload (userId fileId : Uuid) (p : FileService.ConfirmUpload)
  | deleteFile (userId fileId : Uuid) (p : FileService.Delete)
  | createJob (userId fileId : Uuid) (type : String) (options : Option JobOptions) (p : JobService.Create)
  | cancelJob (userId jobId : Uuid) (p : JobService.Cancel)
  | attempt (entry : Nat) (data : JobPayload) (p : Attempt) (settled : Bool)
  | failedListener (jobId : Uuid) (message : String) (p : FailedListener)
  | report (r : Report) (done : Bool)
  | sweep (kind : SweepKind) (p : Sweep)
  deriving DecidableEq, Repr

/-- The task a request starts; `random` is the UUID `createUploadUrl` generates. -/
def Request.task (cfg : Config) (random : Uuid) : Request → Task
  | .createUploadUrl userId input =>
    .createUploadUrl userId input (FileService.createUploadUrl.start cfg userId input random)
  | .confirmUpload userId fileId => .confirmUpload userId fileId .findById
  | .deleteFile userId fileId => .deleteFile userId fileId .findById
  | .createJob userId fileId type options => .createJob userId fileId type options .findFile
  | .cancelJob userId jobId => .cancelJob userId jobId .findById

/-- What a task does next: its call, and the task it becomes with the tasks it leaves behind. -/
def Task.next (cfg : Config) (pick : Nat) : Task → Option (Await (Task × List Task))
  | .createUploadUrl userId input p =>
    (FileService.createUploadUrl cfg userId input p).map (·.map (fun p => (.createUploadUrl userId input p, [])))
  | .confirmUpload userId fileId p =>
    (FileService.confirmUpload userId fileId p).map (·.map (fun p => (.confirmUpload userId fileId p, [])))
  | .deleteFile userId fileId p =>
    (FileService.delete userId fileId p).map (·.map (fun p => (.deleteFile userId fileId p, [])))
  | .createJob userId fileId type options p =>
    (JobService.create userId fileId type options p).map (·.map (fun p => (.createJob userId fileId type options p, [])))
  | .cancelJob userId jobId p =>
    (JobService.cancel userId jobId p).map (·.map (fun p => (.cancelJob userId jobId p, [])))
  | .attempt entry data p settled =>
    (p.next data pick).map
      (·.map (fun x => (.attempt entry data x.1 settled, x.2.map (fun r => Task.report r false))))
  | .failedListener jobId message p =>
    (FileProcessing.failedListener jobId message p).map (·.map (fun p => (.failedListener jobId message p, [])))
  | .report r false => some { call := r.call, resume := fun _ => (.report r true, []) }
  | .report _ true => none
  | .sweep kind p => (FileProcessing.sweep cfg kind p).map (·.map (fun p => (.sweep kind p, [])))

/-- The shared world and the tasks. -/
structure System where
  world : World
  tasks : List Task

/-- The system before the first step. -/
def System.empty : System := ⟨World.empty, []⟩

/-- One step of the system. -/
inductive Action where
  | request (r : Request) (random : Uuid)
  | startSweep (kind : SweepKind)
  | exec (i pick : Nat) (ch : Choice)
  | reject (i pick : Nat) (e : Err)
  | upload (policy : PostPolicy) (size : Nat)
  | deliver (k : Nat)
  | stall (k : Nat)
  | settle (i : Nat)
  | guestSession (id : Uuid)
  | register (user : User)
  | tick (ms : Nat)
  deriving DecidableEq, Repr

/-- A task spawned by the environment. -/
def System.spawn (s : System) (t : Task) : System := { s with tasks := s.tasks ++ [t] }

/-- The system once task `i` has become `x.1`, leaving `x.2` behind, in world `w`. -/
def System.resume (s : System) (i : Nat) (w : World) (x : Task × List Task) : System :=
  ⟨w, Pool.replace s.tasks i x.1 x.2⟩

/-- The entry of the queue an attempt that ended leaves, if it still holds the lock: completed when it returned, back in the
queue or given up when it threw. -/
def BullJob.settle (task : Nat) (outcome : Except Err Unit) (job : BullJob) : BullJob :=
  if job.state = .active task then
    { job with
      attemptsMade := job.attemptsMade + 1
      state := match outcome with
        | .ok () => .completed
        | .error _ => if job.attemptsMade + 1 < attempts then .waiting else .failed }
  else job

/-- The listener BullMQ calls when an attempt failed. -/
def listenerOf (data : JobPayload) : Except Err Unit → List Task
  | .ok () => []
  | .error e => [.failedListener data.jobId e.message .updateStatus]

/-- The step of the system; `none` where the step is not possible. -/
def System.step (cfg : Config) (s : System) : Action → Option System
  | .request r random =>
    if r.userId ∈ s.world.sessions ∧ random ∉ s.world.issued then
      some ({ s with world := s.world.issue random }.spawn (r.task cfg random))
    else none
  | .startSweep kind => some (s.spawn (.sweep kind .cutoff))
  | .exec i pick ch =>
    match s.tasks[i]? with
    | none => none
    | some t =>
      match t.next cfg pick with
      | none => none
      | some aw => some (s.resume i (aw.call.exec ch s.world).2 (aw.resume (aw.call.exec ch s.world).1))
  | .reject i pick e =>
    match s.tasks[i]? with
    | none => none
    | some t =>
      match t.next cfg pick with
      | none => none
      | some aw => if aw.call.infallible then none else some (s.resume i s.world (aw.resume (.error e)))
  | .upload policy size =>
    if policy ∈ s.world.policies ∧ policy.minLength ≤ size ∧ size ≤ policy.maxLength ∧ s.world.now ≤ policy.expires then
      some { s with world := s.world.setObject policy.key (some ⟨size⟩) }
    else none
  | .deliver k =>
    match s.world.queue[k]? with
    | none => none
    | some job =>
      if job.state = .waiting then
        some ({ s with world := { s.world with queue := s.world.queue.set k { job with state := .active s.tasks.length } } }.spawn
          (.attempt k job.payload (Attempt.start job.payload) false))
      else none
  | .stall k =>
    match s.world.queue[k]? with
    | none => none
    | some job =>
      match job.state with
      | .active _ => some { s with world := { s.world with queue := s.world.queue.set k { job with state := .waiting } } }
      | _ => none
  | .settle i =>
    match s.tasks[i]? with
    | some (.attempt k data p false) =>
      match p.outcome with
      | none => none
      | some outcome =>
        some (s.resume i { s.world with queue := s.world.queue.modify k (BullJob.settle i outcome) }
          (.attempt k data p true, listenerOf data outcome))
    | _ => none
  | .guestSession id =>
    if id ∈ s.world.issued then none
    else some { s with world := { s.world.issue id with sessions := id :: s.world.sessions } }
  | .register user =>
    if user.id ∈ s.world.issued ∨ s.world.db.users.rows.any (fun u => u.email = user.email) then none
    else
      (s.world.db.users.insert user).map (fun users =>
        { s with world := { s.world.issue user.id with
            db := { s.world.db with users := users }, sessions := user.id :: s.world.sessions } })
  | .tick ms => some { s with world := { s.world with now := s.world.now + ms } }

/-- The platform as a labelled transition system: its runs begin in the empty system. -/
def platform (cfg : Config) : Lts System Action where
  init s := s = System.empty
  step := System.step cfg

/-! ## Runs written out

A run is given by the list of its actions; these are the upload and the job with which such runs begin. The guest is user 1, the file
10, the job 20; the upload's two calls are the tasks 0 and 1, the job's creation is task 2. -/

namespace Trace

/-- A list of actions runs through from the start to a state that passes a test. -/
theorem reach {cfg : Config} {as : List Action} {p : System → Bool}
    (h : ((platform cfg).run System.empty as).any p = true) : ∃ s, (platform cfg).Reach Lts.Free s ∧ p s = true := by
  obtain ⟨s, hs, hp⟩ := Lts.steps_of_any h
  exact ⟨s, ⟨System.empty, rfl, hs⟩, hp⟩

/-- Task `i` makes its call; the database issues the id `n` if it is an insert, and `sharp` returns 7 bytes. -/
def call (i : Nat) (n : Nat) : Action := .exec i 0 ⟨uuid n, 7, []⟩

/-- The call of task `i` fails in transit. -/
def drop (i : Nat) : Action := .reject i 0 (.error "ECONNRESET")

/-- The calls of task `i`, from the suspension point it is at. -/
def calls (i : Nat) (ns : List Nat) : List Action := ns.map (call i)

/-- The key reserved for the upload. -/
def key : String := uploadKey (uuid 1) (uuid 2) ".png"

/-- A guest reserves an upload of 7 bytes, uploads them and confirms. -/
def upload : List Action :=
  [.guestSession (uuid 1), .request (.createUploadUrl (uuid 1) ⟨"a.png", "image/png", 7⟩) (uuid 2), call 0 10, call 0 0, call 0 0,
    .upload ⟨key, 900000, 7, 7, "image/png"⟩ 7, .request (.confirmUpload (uuid 1) (uuid 10)) (uuid 3), call 1 0, call 1 0, call 1 0]

/-- The guest creates a compression of the file. -/
def job : List Action :=
  [.request (.createJob (uuid 1) (uuid 10) "compress" none) (uuid 4), call 2 0, call 2 20, call 2 0]

/-- The calls of a compression up to the insert of its output, under the id `n`. -/
def untilOutput (i n : Nat) : List Action := calls i (List.replicate 13 0 ++ [n])

/-- A compression whose output is inserted, under the id 30, and whose completion then fails: BullMQ delivers the job again. The
first attempt is task 3, the second task 5. -/
def repeated : List Action := upload ++ job ++ [.deliver 0] ++ untilOutput 3 30 ++ [drop 3, .settle 3, .deliver 0]

end Trace

end FileProcessing
