import FileProcessing.Lemmas.Effects

/-!
# The stages of an attempt

What the invariants need of an attempt is the same for the three processors: whether it has marked its job active, whether it
holds a stored object it is about to insert a row for, whether it has inserted that row, and how it ended. `Attempt.stage`
reads this off the suspension point, `StageCall` says what an attempt writes at each stage, and `StageStep` how a reply moves
it on.
-/

namespace FileProcessing

/-- How far an attempt is. `output` is the row of the output file; the default processor has none. -/
inductive Stage where
  | starting
  | working
  | storing (file : NewFile)
  | completing (output : Option FileRow)
  | announcing (output : Option FileRow)
  | returned (output : Option FileRow)
  | threw (err : Err)

/-- The values of the row an image processor inserts for its output. -/
def ImageProcessor.newOutput (P : ImageProcessor) (data : JobPayload) (inputFile : FileRow) (length : Nat) : NewFile where
  userId := data.userId
  originalName := P.outputName inputFile
  mimeType := P.mime inputFile
  size := length
  storagePath := outputKey data.userId data.jobId (P.outputName inputFile)
  status := .ready

/-- The stage of a suspension point of an image processor. -/
def ImageProcess.stageOf (P : ImageProcessor) (data : JobPayload) : ImageProcess → Stage
  | .markActive => .starting
  | .createFile inputFile length => .storing (P.newOutput data inputFile length)
  | .complete outputFile => .completing (some outputFile)
  | .publishCompleted outputFile => .announcing (some outputFile)
  | .returned outputFile => .returned (some outputFile)
  | .threw err => .threw err
  | _ => .working

/-- The stage of a suspension point of the default processor. -/
def DefaultProcess.stageOf : DefaultProcess → Stage
  | .markActive => .starting
  | .complete => .completing none
  | .publishCompleted => .announcing none
  | .returned => .returned none
  | .threw err => .threw err
  | _ => .working

/-- The stage of an attempt. -/
def Attempt.stage (data : JobPayload) : Attempt → Stage
  | .compress p => p.stageOf (compressProcessor data) data
  | .convert p => p.stageOf (convertProcessor data) data
  | .default p => p.stageOf

/-- The values of an output row of the job: ready, under a key of the job. -/
def IsOutput (data : JobPayload) (file : NewFile) : Prop :=
  file.userId = data.userId ∧ file.status = .ready ∧ ∃ name, file.storagePath = outputKey data.userId data.jobId name

/-- The row of an output that waits to be inserted is one of the job. -/
theorem isOutput_of_stage {data : JobPayload} {p : Attempt} {file : NewFile} (h : p.stage data = .storing file) :
    IsOutput data file := by
  cases p with
  | compress p => cases p <;> cases h; exact ⟨rfl, rfl, _, rfl⟩
  | convert p => cases p <;> cases h; exact ⟨rfl, rfl, _, rfl⟩
  | default p => cases p <;> cases h

/-- An attempt starts where nothing is done. -/
theorem stage_start (data : JobPayload) : (Attempt.start data).stage data = .starting := by
  unfold Attempt.start
  split
  · rfl
  · split <;> rfl

/-- An attempt has ended when it has returned or thrown. -/
theorem outcome_eq {d : JobPayload} {p : Attempt} {o : Except Err Unit} (h : p.outcome = some o) :
    (∃ output, p.stage d = .returned output ∧ o = .ok ()) ∨ ∃ e, p.stage d = .threw e ∧ o = .error e := by
  cases p with
  | compress p => cases p <;> cases h <;> first | exact Or.inl ⟨_, rfl, rfl⟩ | exact Or.inr ⟨_, rfl, rfl⟩
  | convert p => cases p <;> cases h <;> first | exact Or.inl ⟨_, rfl, rfl⟩ | exact Or.inr ⟨_, rfl, rfl⟩
  | default p => cases p <;> cases h <;> first | exact Or.inl ⟨_, rfl, rfl⟩ | exact Or.inr ⟨_, rfl, rfl⟩

theorem outcome_of_returned {d : JobPayload} {p : Attempt} {o : Option FileRow} (h : p.stage d = .returned o) :
    p.outcome = some (.ok ()) := by
  cases p with
  | compress p | convert p => cases p <;> first | rfl | cases h
  | default p => cases p <;> first | rfl | cases h

/-! ## What an attempt writes -/

/-- The write of the call an attempt awaits at a stage. -/
inductive StageCall (data : JobPayload) : Stage → Effect → Prop where
  | start : StageCall data .starting (.updateStatus data.jobId .active { progress := some 0 })
  | idle : StageCall data .working .none
  | progress (n : Nat) : StageCall data .working (.updateProgress data.jobId n)
  | publish (n : Nat) : StageCall data .working (.publish ⟨data.jobId, .progress n .active⟩)
  | put (name : String) (length : Nat) :
      StageCall data .working (.putObject (outputKey data.userId data.jobId name) length)
  | insert (file : NewFile) : StageCall data (.storing file) (.createFile file)
  | complete (output : Option FileRow) (extra : JobExtra) (he : extra.outputFileId = output.map (·.id)) :
      StageCall data (.completing output) (.updateStatus data.jobId .completed extra)
  | announce (output : Option FileRow) :
      StageCall data (.announcing output) (.publish ⟨data.jobId, .completed ((output.map (·.id)).getD data.fileId)⟩)

/-- The writes an attempt makes at one stage or another. -/
def Effect.OfAttempt : Effect → Prop
  | .none | .updateStatus _ _ _ | .updateProgress _ _ | .publish _ | .putObject _ _ | .createFile _ => True
  | _ => False

/-- An attempt makes no others. -/
theorem StageCall.ofAttempt {data : JobPayload} {g : Stage} {e : Effect} (h : StageCall data g e) : e.OfAttempt := by
  cases h <;> trivial

/-- The move of an attempt when the call it awaits settles. -/
inductive StageStep (data : JobPayload) : Stage → {α : Type} → Call α → Except Err α → Stage → Prop where
  | failed (g : Stage) {α : Type} (c : Call α) (e : Err) : StageStep data g c (.error e) (.threw e)
  | started (extra : JobExtra) (row : Option JobRow) :
      StageStep data .starting (.updateStatus data.jobId .active extra) (.ok row) .working
  | worked {α : Type} (c : Call α) (v : α) : StageStep data .working c (.ok v) .working
  | gaveUp {α : Type} (c : Call α) (v : α) (e : Err) : StageStep data .working c (.ok v) (.threw e)
  | finished {α : Type} (c : Call α) (v : α) : StageStep data .working c (.ok v) (.completing none)
  | stored (file : NewFile) (length : Nat) (hs : file.size = length) :
      StageStep data .working (.putObject file.storagePath length) (.ok ()) (.storing file)
  | inserted (file : NewFile) (row : FileRow) :
      StageStep data (.storing file) (.createFile file) (.ok row) (.completing (some row))
  | completed (output : Option FileRow) (extra : JobExtra) (row : Option JobRow) :
      StageStep data (.completing output) (.updateStatus data.jobId .completed extra) (.ok row) (.announcing output)
  | announced (output : Option FileRow) (message : Message) :
      StageStep data (.announcing output) (.publish message) (.ok ()) (.returned output)

/-- An attempt whose call fails has thrown. -/
theorem StageStep.of_error {data : JobPayload} {g g' : Stage} {α : Type} {c : Call α} {e : Err}
    (h : StageStep data g c (.error e) g') : g' = .threw e := by
  cases h
  rfl

/-- An attempt that has completed its row announces it. -/
theorem StageStep.of_completing {data : JobPayload} {o : Option FileRow} {g' : Stage} {α : Type} {c : Call α} {v : α}
    (h : StageStep data (.completing o) c (.ok v) g') : g' = .announcing o := by
  cases h
  rfl

/-- An attempt comes to its announcement by completing its row. -/
theorem StageStep.to_announcing {data : JobPayload} {g : Stage} {α : Type} {c : Call α} {r : Except Err α} {o : Option FileRow}
    (h : StageStep data g c r (.announcing o)) : g = .completing o ∧ ∃ v, r = .ok v := by
  cases h
  exact ⟨rfl, _, rfl⟩

/-- An attempt returns from its announcement. -/
theorem StageStep.to_returned {data : JobPayload} {g : Stage} {α : Type} {c : Call α} {r : Except Err α} {o : Option FileRow}
    (h : StageStep data g c r (.returned o)) : g = .announcing o := by
  cases h
  rfl

/-- An attempt that has announced its completion returns. -/
theorem StageStep.of_announcing {data : JobPayload} {o : Option FileRow} {g' : Stage} {α : Type} {c : Call α} {v : α}
    (h : StageStep data (.announcing o) c (.ok v) g') : g' = .returned o := by
  cases h
  rfl

/-- An attempt comes to the insert of its output by putting its object. -/
theorem StageStep.to_storing {data : JobPayload} {g : Stage} {α : Type} {c : Call α} {r : Except Err α} {file : NewFile}
    (h : StageStep data g c r (.storing file)) : ∃ length : Nat, file.size = length ∧ c.effect = .putObject file.storagePath length := by
  cases h with
  | stored _ length hs => exact ⟨length, hs, rfl⟩

/-- An attempt at the insert of its output throws when the insert is rejected, and holds the row when it is not. -/
theorem StageStep.of_storing {data : JobPayload} {file : NewFile} {g' : Stage} {α : Type} {c : Call α} {ch : Choice} {w : World}
    (hc : StageCall data (.storing file) c.effect) (h : StageStep data (.storing file) c (c.exec ch w).1 g') :
    (∃ e, ((Call.createFile file).exec ch w).1 = .error e ∧ g' = .threw e) ∨
      ∃ row, ((Call.createFile file).exec ch w).1 = .ok row ∧ g' = .completing (some row) := by
  generalize he : c.effect = e at hc
  cases hc
  cases c with
  | createFile =>
    cases he
    cases hr : ((Call.createFile file).exec ch w).1 with
    | error e =>
      rw [hr] at h
      exact Or.inl ⟨e, rfl, h.of_error⟩
    | ok row =>
      rw [hr] at h
      cases h
      exact Or.inr ⟨row, rfl, rfl⟩
  | _ => cases he

/-- The calls of a progress report are calls of the working stage, and its replies keep the attempt there. -/
theorem promiseAll_stage {P : Type} {data : JobPayload} {n pick : Nat} {todo : List ReportTarget}
    {pending : List ReportTarget → P} {done : P} {threw : Err → P} {aw : Await (P × List Report)}
    (h : promiseAll data.jobId n todo pick pending done threw = some aw) (stage : P → Stage)
    (hp : ∀ l, stage (pending l) = .working) (hd : stage done = .working ∨ stage done = .completing none)
    (ht : ∀ e, stage (threw e) = .threw e) :
    StageCall data .working aw.call.effect ∧ ∀ r, StageStep data .working aw.call r (stage (aw.resume r).1) := by
  unfold promiseAll at h
  split at h
  · cases h
  rename_i target _
  cases h
  refine ⟨?_, fun r => ?_⟩
  · cases target
    · exact .idle
    · exact .progress n
    · exact .publish n
  · cases r with
    | error e =>
      rw [ht]
      exact .failed _ _ e
    | ok v =>
      by_cases hl : (todo.eraseIdx pick).isEmpty = true
      · simp only [hl, if_true]
        rcases hd with hd | hd <;> rw [hd]
        · exact .worked _ v
        · exact .finished _ v
      · simp only [hl]
        rw [if_neg Bool.false_ne_true, hp]
        exact .worked _ v

/-- The image processors follow the stages. -/
theorem imageProcess_stage {P : ImageProcessor} {data : JobPayload} {pick : Nat} {p : ImageProcess}
    {aw : Await (ImageProcess × List Report)} (h : imageProcess P data pick p = some aw) :
    StageCall data (p.stageOf P data) aw.call.effect ∧
      ∀ r, StageStep data (p.stageOf P data) aw.call r ((aw.resume r).1.stageOf P data) := by
  cases p with
  | report33 f todo => exact promiseAll_stage h (ImageProcess.stageOf P data) (fun _ => rfl) (Or.inl rfl) (fun _ => rfl)
  | report66 f n todo => exact promiseAll_stage h (ImageProcess.stageOf P data) (fun _ => rfl) (Or.inl rfl) (fun _ => rfl)
  | markActive =>
    cases h
    refine ⟨.start, fun r => ?_⟩
    cases r with
    | error e => exact .failed _ _ e
    | ok v => exact .started _ v
  | publishStart =>
    cases h
    refine ⟨.publish 0, fun r => ?_⟩
    cases r with
    | error e => exact .failed _ _ e
    | ok v => exact .worked _ v
  | findInput =>
    cases h
    refine ⟨.idle, fun r => ?_⟩
    cases r with
    | error e => exact .failed _ _ e
    | ok v =>
      cases v with
      | none => exact .gaveUp _ _ _
      | some f => exact .worked _ _
  | getObject f | readStream f | sharp f =>
    cases h
    refine ⟨.idle, fun r => ?_⟩
    cases r with
    | error e => exact .failed _ _ e
    | ok v => exact .worked _ v
  | putObject f n =>
    cases h
    refine ⟨.put _ n, fun r => ?_⟩
    cases r with
    | error e => exact .failed _ _ e
    | ok v => exact .stored (P.newOutput data f n) n rfl
  | createFile f n =>
    cases h
    refine ⟨.insert _, fun r => ?_⟩
    cases r with
    | error e => exact .failed _ _ e
    | ok row => exact .inserted _ row
  | complete o =>
    cases h
    refine ⟨.complete (some o) _ rfl, fun r => ?_⟩
    cases r with
    | error e => exact .failed _ _ e
    | ok row => exact .completed _ _ row
  | publishCompleted o =>
    cases h
    refine ⟨.announce (some o), fun r => ?_⟩
    cases r with
    | error e => exact .failed _ _ e
    | ok v => exact .announced _ _
  | returned o => cases h
  | threw e => cases h

/-- The default processor follows the stages. -/
theorem defaultProcess_stage {data : JobPayload} {pick : Nat} {p : DefaultProcess}
    {aw : Await (DefaultProcess × List Report)} (h : defaultProcess data pick p = some aw) :
    StageCall data p.stageOf aw.call.effect ∧ ∀ r, StageStep data p.stageOf aw.call r (aw.resume r).1.stageOf := by
  cases p with
  | report i todo =>
    refine promiseAll_stage h DefaultProcess.stageOf (fun _ => rfl) ?_ (fun _ => rfl)
    split
    · exact Or.inl rfl
    · exact Or.inr rfl
  | markActive =>
    cases h
    refine ⟨.start, fun r => ?_⟩
    cases r with
    | error e => exact .failed _ _ e
    | ok v => exact .started _ v
  | stage i =>
    cases h
    refine ⟨.idle, fun r => ?_⟩
    cases r with
    | error e => exact .failed _ _ e
    | ok v => exact .worked _ v
  | complete =>
    cases h
    refine ⟨.complete none _ rfl, fun r => ?_⟩
    cases r with
    | error e => exact .failed _ _ e
    | ok row => exact .completed _ _ row
  | publishCompleted =>
    cases h
    refine ⟨.announce none, fun r => ?_⟩
    cases r with
    | error e => exact .failed _ _ e
    | ok v => exact .announced _ _
  | returned => cases h
  | threw e => cases h

/-- An attempt follows the stages. -/
theorem attempt_stage {data : JobPayload} {pick : Nat} {p : Attempt} {aw : Await (Attempt × List Report)}
    (h : p.next data pick = some aw) :
    StageCall data (p.stage data) aw.call.effect ∧
      ∀ r, StageStep data (p.stage data) aw.call r ((aw.resume r).1.stage data) := by
  cases p with
  | compress p =>
    obtain ⟨aw, haw, rfl⟩ := Option.map_eq_some_iff.1 h
    exact imageProcess_stage haw
  | convert p =>
    obtain ⟨aw, haw, rfl⟩ := Option.map_eq_some_iff.1 h
    exact imageProcess_stage haw
  | default p =>
    obtain ⟨aw, haw, rfl⟩ := Option.map_eq_some_iff.1 h
    exact defaultProcess_stage haw

end FileProcessing
