import FileProcessing.Lib.Doubles
import FileProcessing.Lib.Table
import FileProcessing.Web.JobWebSocket

/-!
# `useJobPageRowState` and `useJobRowState`

A row of the jobs page or of the dashboard, mounted for one job, with the query cache it writes back to. The two hooks differ in the key
of their list: one body, with the key as a parameter. The cache is what the queries put there, at any time; the list renders the row
with what is cached then; and the effect of the row runs in a step of its own, after the one of `useJobWebSocket`.
-/

namespace FileProcessing

/-- A job in a cached list, as far as the hooks read it. -/
structure ListedJob where
  id : String
  status : JobStatus
  progress : JsNumber
  deriving DecidableEq, Repr

/-- The parameters a list of jobs is cached under. -/
structure ListKey where
  status : Option JobStatus
  page : Nat
  limit : Nat
  deriving DecidableEq, Repr

/-- The `data` of a cached list; a job is in it once. -/
abbrev JobList := Table ListedJob.id

/-- Which of the two hooks. -/
inductive RowHook where
  | useJobPageRowState
  | useJobRowState
  deriving DecidableEq, Repr

/-- `RECENT_JOBS_KEY`. -/
def recentJobsKey : ListKey := ⟨none, 1, 5⟩

/-- The key a hook writes under, with `listStatus` and `listPage` of its arguments. -/
def RowHook.listKey (kind : RowHook) (listStatus : Option JobStatus) (listPage : Nat) : ListKey :=
  match kind with
  | .useJobPageRowState => ⟨listStatus, listPage, 20⟩
  | .useJobRowState => recentJobsKey

/-- The dependencies of the effect that change. -/
structure RowDeps where
  progress : JsNumber
  status : JobStatus
  isActive : Bool
  key : ListKey
  deriving DecidableEq, Repr

/-- A mounted row: the job and the key of the last render, the hook for its events, the dependencies its effect last ran with; and the
cache. -/
structure RowView where
  job : ListedJob
  key : ListKey
  hook : Hook
  deps : Option RowDeps
  cache : ListKey → Option JobList

/-- `isActive`. -/
def ListedJob.isActive (job : ListedJob) : Bool := job.status = .active

/-- The job id `useJobWebSocket` is called with. -/
def ListedJob.wsJobId (job : ListedJob) : Option String := if job.isActive then some job.id else none

/-- The `initial` it is called with. -/
def ListedJob.initial (job : ListedJob) : InitialState := ⟨job.progress, job.status⟩

namespace RowView

/-- The first render. -/
def mount (job : ListedJob) (key : ListKey) (token : Option String) (cache : ListKey → Option JobList) : RowView :=
  ⟨job, key, .mount job.wsJobId token job.initial, none, cache⟩

/-- `liveStatus`. -/
def liveStatus (s : RowView) : JobStatus := if s.job.isActive then s.hook.state.status else s.job.status

/-- `liveProgress`. -/
def liveProgress (s : RowView) : JsNumber := if s.job.isActive then s.hook.state.progress else s.job.progress

/-- The job as it is cached under a key. -/
def cached (s : RowView) (key : ListKey) : Option ListedJob :=
  (s.cache key).bind (fun list => list.rows.find? (fun job => job.id = s.job.id))

/-- The dependencies of the effect for a state of the hook and the props of a render. -/
def depsOf (state : JobWsState) (isActive : Bool) (key : ListKey) : RowDeps := ⟨state.progress, state.status, isActive, key⟩

/-- The dependencies at the last render. -/
def currentDeps (s : RowView) : RowDeps := depsOf s.hook.state s.job.isActive s.key

/-- `queryClient.setQueryData` on the list of the row: a list that is cached gets the state of the hook for the job. -/
def setQueryData (s : RowView) : ListKey → Option JobList := fun key =>
  if key = s.key then
    (s.cache key).map (fun list => list.update (fun job => job.id = s.job.id)
      (fun job => { job with progress := s.hook.state.progress, status := s.hook.state.status }) (fun _ => rfl))
  else s.cache key

/-- The effect of the row: it runs when a dependency has changed. -/
def effect (s : RowView) : Option RowView :=
  if s.deps = some s.currentDeps then none
  else some { s with deps := some s.currentDeps, cache := if s.job.isActive then s.setQueryData else s.cache }

end RowView

/-- What happens to a row: a list is fetched again, the list renders the row with what is cached, a token of the stores changes, what
happens to the hook for the events, and a run of the row's effect. -/
inductive RowAction where
  | refetch (key : ListKey) (list : JobList)
  | render (listStatus : Option JobStatus) (listPage : Nat) (token : Option String)
  | setToken (token : Option String)
  | ws (a : HookAction)
  | effect

/-- The step of a row; a row whose job is no longer in the list is unmounted. -/
def RowView.step (kind : RowHook) (s : RowView) : RowAction → Option RowView
  | .refetch key list => some { s with cache := fun other => if other = key then some list else s.cache other }
  | .render listStatus listPage token =>
    (s.cached (kind.listKey listStatus listPage)).bind (fun job =>
      (s.hook.step (.render job.wsJobId token job.initial)).map (fun hook =>
        { s with job := job, key := kind.listKey listStatus listPage, hook := hook }))
  | .setToken token => (s.hook.step (.render s.job.wsJobId token s.job.initial)).map (fun hook => { s with hook := hook })
  | .ws (.render _ _ _) => none
  | .ws a => (s.hook.step a).map (fun hook => { s with hook := hook })
  | .effect => s.effect

/-- The rows of a hook as a transition system: their runs begin when a cached list renders its job for the first time. -/
def rowView (kind : RowHook) : Lts RowView RowAction where
  init s := ∃ listStatus listPage token cache list job, cache (kind.listKey listStatus listPage) = some list ∧ job ∈ list ∧
    s = .mount job (kind.listKey listStatus listPage) token cache
  step := RowView.step kind

end FileProcessing
