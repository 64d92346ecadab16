import FileProcessing.Web.JobWebSocket

/-!
# `useConvertFlow` and `useCompressFlow`

The two flows differ in the setting the user chooses and in the job they submit: one flow, with these as parameters. A mutation is
known by its place among the calls the flow has started; it settles once, also after another call has superseded it. Every update
of the flow renders the component, and so the hook, again.
-/

namespace FileProcessing

/-- A file the user has picked, by its media type. -/
structure PickedFile where
  type : String
  deriving DecidableEq, Repr

inductive FlowStep where
  | idle | options | processing | done | error
  deriving DecidableEq, Repr

/-- The state of a flow; `setting` is `selectedFormat` or `quality`. -/
structure FlowState (σ : Type) where
  step : FlowStep
  selectedFile : Option PickedFile
  setting : σ
  uploadedFileId : Option String
  jobId : Option String
  uploadProgress : Nat
  deriving Repr

/-- What the two flows do not share: the setting to begin with, the one a file brings, and the type and the options of the job that
`onSubmit` creates, `none` where it returns early. -/
structure FlowKind (σ : Type) where
  setting : σ
  settingOf : PickedFile → σ
  job : σ → Option (String × Option JobOptions)

/-- `FORMAT_MAP`. -/
def formatMap : List (String × List String) :=
  [("image/", ["PNG", "JPEG", "WEBP"]), ("application/pdf", ["DOCX", "PNG", "TXT"]), ("video/", ["MP4", "WEBM", "GIF", "MP3"]),
    ("audio/", ["MP3", "WAV", "OGG", "FLAC"])]

/-- `getFormatOptions`. -/
def getFormatOptions (mimeType : String) : List String :=
  match formatMap.find? (fun entry => entry.1.toList.isPrefixOf mimeType.toList) with
  | some entry => entry.2
  | none => []

/-- `useConvertFlow`. -/
def convertFlow : FlowKind String where
  setting := ""
  settingOf file := (getFormatOptions file.type).headD ""
  job format := if format = "" then none else some (String.ofList (format.toList.map Char.toLower), none)

/-- `useCompressFlow`. -/
def compressFlow : FlowKind Nat where
  setting := 80
  settingOf _ := 80
  job quality := some ("compress", some ⟨some quality⟩)

/-- `INITIAL_STATE`. -/
def FlowKind.initialState {σ : Type} (K : FlowKind σ) : FlowState σ := ⟨.idle, none, K.setting, none, none, 0⟩

/-- A call of `mutate` and whether it has settled. -/
structure Mutation (α : Type) where
  argument : α
  settled : Bool
  deriving Repr

/-- A flow in a mounted component: its state, the calls of the upload and of the job mutation, the token of the stores, and the
hook. -/
structure Flow (σ : Type) where
  state : FlowState σ
  uploads : List (Mutation PickedFile)
  jobs : List (Mutation (String × String × Option JobOptions))
  token : Option String
  ws : TrackedHook

/-- What happens to a flow: the user picks files, changes the setting, submits or resets; an upload progresses; a call settles with
the id it returns, or fails; the token changes; or something happens to the hook. -/
inductive FlowAction (σ : Type) where
  | onFileSelected (file : Option PickedFile)
  | setSetting (setting : σ)
  | onSubmit
  | onReset
  | uploadProgress (pct : Nat)
  | uploaded (call : Nat) (id : Option String)
  | created (call : Nat) (id : Option String)
  | setToken (token : Option String)
  | ws (a : HookAction)

/-- The job id the component renders the hook with. -/
def FlowState.wsJobId {σ : Type} (state : FlowState σ) : Option String :=
  if state.step = .processing then state.jobId else none

/-- The `initial` the component renders the hook with. -/
def flowInitial : InitialState := ⟨.finite 0, .pending⟩

/-- A call that has not settled. -/
def unsettled {α : Type} (calls : List (Mutation α)) (i : Nat) : Bool := calls[i]?.any (fun call => !call.settled)

/-- The calls once one has settled. -/
def settle {α : Type} (calls : List (Mutation α)) (i : Nat) : List (Mutation α) :=
  calls.modify i (fun call => { call with settled := true })

namespace Flow

variable {σ : Type}

/-- The first render. -/
def mount (K : FlowKind σ) (token : Option String) : Flow σ :=
  ⟨K.initialState, [], [], token, .mount K.initialState.wsJobId token flowInitial⟩

/-- What an action makes of the state of the flow and of its calls; `none` when it is not possible. -/
def update (K : FlowKind σ) (s : Flow σ) : FlowAction σ → Option (Flow σ)
  | .onFileSelected none => some s
  | .onFileSelected (some file) => some
    { s with
      state := { K.initialState with selectedFile := some file, setting := K.settingOf file }
      uploads := s.uploads ++ [⟨file, false⟩] }
  | .setSetting setting => some { s with state := { s.state with setting := setting } }
  | .onSubmit =>
    match Hook.truthy s.state.uploadedFileId, K.job s.state.setting with
    | some fileId, some job => some { s with jobs := s.jobs ++ [⟨(fileId, job), false⟩] }
    | _, _ => some s
  | .onReset => some { s with state := K.initialState }
  | .uploadProgress pct => some { s with state := { s.state with uploadProgress := pct } }
  | .uploaded call id =>
    if unsettled s.uploads call then
      match id with
      | some id => some
        { s with
          state := { s.state with step := .options, uploadedFileId := some id, uploadProgress := 0 }
          uploads := settle s.uploads call }
      | none => some { s with state := { s.state with step := .error }, uploads := settle s.uploads call }
    else none
  | .created call id =>
    if unsettled s.jobs call then
      match id with
      | some id => some
        { s with state := { s.state with step := .processing, jobId := some id }, jobs := settle s.jobs call }
      | none => some { s with state := { s.state with step := .error }, jobs := settle s.jobs call }
    else none
  | .setToken token => some { s with token := token }
  | .ws _ => some s

/-- What an action is to the hook: a render with what the flow passes it, or an action of its own. -/
def hookAction (K : FlowKind σ) (s : Flow σ) : FlowAction σ → Option HookAction
  | .ws (.render _ _ _) => none
  | .ws a => some a
  | a => (s.update K a).map (fun s' => .render s'.state.wsJobId s'.token flowInitial)

/-- The step of the flow. -/
def step (K : FlowKind σ) (s : Flow σ) (a : FlowAction σ) : Option (Flow σ) :=
  (s.update K a).bind (fun s' => (s.hookAction K a).bind (fun ha => (s.ws.step ha).map (fun ws => { s' with ws := ws })))

/-- `effectiveStep`. -/
def effectiveStep (s : Flow σ) : FlowStep :=
  if s.state.step = .processing then
    if s.ws.hook.state.status = .completed then .done
    else if s.ws.hook.state.status = .failed then .error
    else s.state.step
  else s.state.step

/-- `outputFileId`. -/
def outputFileId (s : Flow σ) : Option String := s.ws.hook.state.outputFileId

end Flow

/-- A flow as a transition system. -/
def flow {σ : Type} (K : FlowKind σ) : Lts (Flow σ) (FlowAction σ) where
  init s := ∃ token, s = .mount K token
  step := Flow.step K

end FileProcessing
