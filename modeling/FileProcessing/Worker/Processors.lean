import FileProcessing.World

/-!
# The processors and the worker's dispatch

An attempt of a queued job runs one of three processors. The three calls of a `Promise.all` go out together: the environment
picks the order in which they take effect, and when one rejects, the attempt throws and the others still run on their own.
-/

namespace FileProcessing

/-- The three recipients of a progress report: BullMQ's own job, the row of `jobs`, the Redis channel. -/
inductive ReportTarget where
  | bullJob
  | jobRow
  | channel
  deriving DecidableEq, Repr

/-- One call of the `Promise.all` of a progress report. -/
structure Report where
  jobId : Uuid
  progress : Nat
  target : ReportTarget
  deriving DecidableEq, Repr

/-- The call of a report. -/
def Report.call (r : Report) : Call Unit :=
  match r.target with
  | .bullJob => .bullProgress
  | .jobRow => .updateProgress r.jobId r.progress
  | .channel => .publish ⟨r.jobId, .progress r.progress .active⟩

/-- The calls of a progress report, in the order they are written. -/
def ReportTarget.all : List ReportTarget := [.bullJob, .jobRow, .channel]

/-- `await Promise.all(todo)`: the environment picks a call that has not settled. The point that follows is `done` once all
have, and `threw` as soon as one rejects; then the rest go on without the attempt. -/
def promiseAll {P : Type} (jobId : Uuid) (progress : Nat) (todo : List ReportTarget) (pick : Nat)
    (pending : List ReportTarget → P) (done : P) (threw : Err → P) : Option (Await (P × List Report)) :=
  match todo[pick]? with
  | none => none
  | some target => some
    { call := Report.call ⟨jobId, progress, target⟩
      resume := fun
        | .error e => (threw e, (todo.eraseIdx pick).map (fun target => ⟨jobId, progress, target⟩))
        | .ok () => (if (todo.eraseIdx pick).isEmpty then done else pending (todo.eraseIdx pick), []) }

/-- The suspension points of `CompressProcessor.process` and `ConvertProcessor.process`. -/
inductive ImageProcess where
  | markActive
  | publishStart
  | findInput
  | getObject (inputFile : FileRow)
  | readStream (inputFile : FileRow)
  | report33 (inputFile : FileRow) (todo : List ReportTarget)
  | sharp (inputFile : FileRow)
  | report66 (inputFile : FileRow) (length : Nat) (todo : List ReportTarget)
  | putObject (inputFile : FileRow) (length : Nat)
  | createFile (inputFile : FileRow) (length : Nat)
  | complete (outputFile : FileRow)
  | publishCompleted (outputFile : FileRow)
  | returned (outputFile : FileRow)
  | threw (err : Err)
  deriving DecidableEq, Repr

/-- What the two image processors do not share: how they encode, and the name and type of the output. -/
structure ImageProcessor where
  encoder : FileRow → Encoder
  outputName : FileRow → String
  mime : FileRow → String

/-- The body the two image processors share. -/
def imageProcess (P : ImageProcessor) (data : JobPayload) (pick : Nat) :
    ImageProcess → Option (Await (ImageProcess × List Report))
  | .markActive => some
    { call := .updateStatus data.jobId .active { progress := some 0 }
      resume := fun
        | .error e => (.threw e, [])
        | .ok _ => (.publishStart, []) }
  | .publishStart => some
    { call := .publish ⟨data.jobId, .progress 0 .active⟩
      resume := fun
        | .error e => (.threw e, [])
        | .ok () => (.findInput, []) }
  | .findInput => some
    { call := .findFile data.userId data.fileId
      resume := fun
        | .error e => (.threw e, [])
        | .ok none => (.threw (.error ("Input file not found: " ++ data.fileId.text)), [])
        | .ok (some inputFile) => (.getObject inputFile, []) }
  | .getObject inputFile => some
    { call := .getObject inputFile.storagePath
      resume := fun
        | .error e => (.threw e, [])
        | .ok _ => (.readStream inputFile, []) }
  | .readStream inputFile => some
    { call := .readStream
      resume := fun
        | .error e => (.threw e, [])
        | .ok () => (.report33 inputFile ReportTarget.all, []) }
  | .report33 inputFile todo => promiseAll data.jobId 33 todo pick (.report33 inputFile) (.sharp inputFile) .threw
  | .sharp inputFile => some
    { call := .sharp (P.encoder inputFile)
      resume := fun
        | .error e => (.threw e, [])
        | .ok length => (.report66 inputFile length ReportTarget.all, []) }
  | .report66 inputFile length todo =>
    promiseAll data.jobId 66 todo pick (.report66 inputFile length) (.putObject inputFile length) .threw
  | .putObject inputFile length => some
    { call := .putObject (outputKey data.userId data.jobId (P.outputName inputFile)) length
      resume := fun
        | .error e => (.threw e, [])
        | .ok () => (.createFile inputFile length, []) }
  | .createFile inputFile length => some
    { call := .createFile
        { userId := data.userId, originalName := P.outputName inputFile, mimeType := P.mime inputFile, size := length,
          storagePath := outputKey data.userId data.jobId (P.outputName inputFile), status := .ready }
      resume := fun
        | .error e => (.threw e, [])
        | .ok outputFile => (.complete outputFile, []) }
  | .complete outputFile => some
    { call := .updateStatus data.jobId .completed { progress := some 100, outputFileId := some outputFile.id }
      resume := fun
        | .error e => (.threw e, [])
        | .ok _ => (.publishCompleted outputFile, []) }
  | .publishCompleted outputFile => some
    { call := .publish ⟨data.jobId, .completed outputFile.id⟩
      resume := fun
        | .error e => (.threw e, [])
        | .ok () => (.returned outputFile, []) }
  | .returned _ => none
  | .threw _ => none

/-- `CompressProcessor`: re-encodes in the format of the input, at the quality asked for or 80, under the input's name. -/
def compressProcessor (data : JobPayload) : ImageProcessor where
  encoder inputFile :=
    { format :=
        if inputFile.mimeType = "image/png" then "png" else if inputFile.mimeType = "image/webp" then "webp" else "jpeg"
      quality := some ((data.options.bind JobOptions.quality).getD 80) }
  outputName inputFile := inputFile.originalName
  mime inputFile := inputFile.mimeType

/-- `FORMAT_CONFIG`: the extension and the media type of a format. The dispatch lets no other format through. -/
def formatConfig (format : String) : String × String :=
  if format = "png" then ("png", "image/png")
  else if format = "webp" then ("webp", "image/webp")
  else ("jpg", "image/jpeg")

/-- `ConvertProcessor`: encodes in the format the job's type names; the output is named after the stem of the input. -/
def convertProcessor (data : JobPayload) : ImageProcessor where
  encoder _ :=
    { format := if data.type = "png" then "png" else if data.type = "webp" then "webp" else "jpeg", quality := none }
  outputName inputFile :=
    basename inputFile.originalName (extname inputFile.originalName) ++ "." ++ (formatConfig data.type).1
  mime _ := (formatConfig data.type).2

/-- The suspension points of `DefaultProcessor.process`; `i` is the stage of the loop. -/
inductive DefaultProcess where
  | markActive
  | stage (i : Nat)
  | report (i : Nat) (todo : List ReportTarget)
  | complete
  | publishCompleted
  | returned
  | threw (err : Err)
  deriving DecidableEq, Repr

/-- `stages` of `DefaultProcessor`. -/
def stages : Nat := 5

/-- `Math.round((i / stages) * 100)`, which is exact. -/
def stageProgress (i : Nat) : Nat := i * 100 / stages

/-- `DefaultProcessor.process`. -/
def defaultProcess (data : JobPayload) (pick : Nat) : DefaultProcess → Option (Await (DefaultProcess × List Report))
  | .markActive => some
    { call := .updateStatus data.jobId .active { progress := some 0 }
      resume := fun
        | .error e => (.threw e, [])
        | .ok _ => (.stage 1, []) }
  | .stage i => some
    { call := .setTimeout
      resume := fun
        | .error e => (.threw e, [])
        | .ok () => (.report i ReportTarget.all, []) }
  | .report i todo =>
    promiseAll data.jobId (stageProgress i) todo pick (.report i) (if i < stages then .stage (i + 1) else .complete) .threw
  | .complete => some
    { call := .updateStatus data.jobId .completed
        { progress := some 100, outputPath := some ("processed/" ++ data.fileId.text ++ "/output.txt") }
      resume := fun
        | .error e => (.threw e, [])
        | .ok _ => (.publishCompleted, []) }
  | .publishCompleted => some
    { call := .publish ⟨data.jobId, .completed data.fileId⟩
      resume := fun
        | .error e => (.threw e, [])
        | .ok () => (.returned, []) }
  | .returned => none
  | .threw _ => none

/-- The suspension points of an attempt. -/
inductive Attempt where
  | compress (p : ImageProcess)
  | convert (p : ImageProcess)
  | default (p : DefaultProcess)
  deriving DecidableEq, Repr

/-- The worker's dispatch on the type of a job. -/
def Attempt.start (data : JobPayload) : Attempt :=
  if data.type = "compress" then .compress .markActive
  else if data.type = "jpeg" ∨ data.type = "png" ∨ data.type = "webp" then .convert .markActive
  else .default .markActive

/-- What an attempt does next. -/
def Attempt.next (data : JobPayload) (pick : Nat) : Attempt → Option (Await (Attempt × List Report))
  | .compress p => (imageProcess (compressProcessor data) data pick p).map (·.map (fun x => (.compress x.1, x.2)))
  | .convert p => (imageProcess (convertProcessor data) data pick p).map (·.map (fun x => (.convert x.1, x.2)))
  | .default p => (defaultProcess data pick p).map (·.map (fun x => (.default x.1, x.2)))

/-- How an attempt ended, once it has. -/
def Attempt.outcome : Attempt → Option (Except Err Unit)
  | .compress (.returned _) | .convert (.returned _) | .default .returned => some (.ok ())
  | .compress (.threw e) | .convert (.threw e) | .default (.threw e) => some (.error e)
  | _ => none

/-- The suspension points of the `failed` listener's un-awaited chain. -/
inductive FailedListener where
  | updateStatus
  | publish
  | done
  deriving DecidableEq, Repr

/-- The `failed` listener: a rejection of either call is caught and logged. -/
def failedListener (jobId : Uuid) (message : String) : FailedListener → Option (Await FailedListener)
  | .updateStatus => some
    { call := .updateStatus jobId .failed { errorMessage := some message }
      resume := fun
        | .error _ => .done
        | .ok _ => .publish }
  | .publish => some
    { call := .publish ⟨jobId, .failed message⟩
      resume := fun _ => .done }
  | .done => none

end FileProcessing
