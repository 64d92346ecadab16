import FileProcessing.Lemmas.Hook
import FileProcessing.Web.JobRows

/-!
# A row and what the cache holds of its job

The state of `useJobWebSocket` begins with the row's first props and follows its events only, while the queries bring the cache forward;
the effect of the row writes the one over the other, also when nothing live has been heard. So the cache is never moved backwards in
the runs where the effect becomes due only with a state that is not behind what is cached.
-/

namespace FileProcessing

variable {kind : RowHook} {s s' : RowView} {a : RowAction}

/-- How far a status is. -/
def JobStatus.rank : JobStatus → Nat
  | .pending => 0
  | .active => 1
  | .completed | .failed => 2

/-- The status precedes that of the job, or the progress is lower. -/
def Behind (status : JobStatus) (progress : JsNumber) (job : ListedJob) : Prop :=
  status.rank < job.status.rank ∨ progress.lt job.progress = true

/-- The effect of the row moves the job backwards in no list. -/
def NeverBack (kind : RowHook) (s : RowView) : Prop :=
  ∀ s', (rowView kind).step s .effect = some s' → ∀ key list list', s.cache key = some list → s'.cache key = some list' →
    ∀ job ∈ list, ∀ job' ∈ list', job.id = s.job.id → job'.id = s.job.id → ¬ Behind job'.status job'.progress job

/-- In every run of a row whose steps meet a condition, the effect never moves the job backwards. The condition may look at where the
run began and at what has happened in it. -/
def CacheForward (kind : RowHook) (ok : RowView → RowView × List (RowView × RowAction) → RowAction → Prop) : Prop :=
  ∀ s₀, (rowView kind).init s₀ → ∀ s past, (rowView kind).withPast.Steps (ok s₀) (s₀, []) (s, past) → NeverBack kind s

/-! ## The runs of a job with a single attempt -/

/-- The job as the refetches have delivered it. -/
def served (jobId : String) (past : List (RowView × RowAction)) : List ListedJob :=
  past.filterMap (fun step =>
    match step.2 with
    | .refetch _ list => list.rows.find? (fun job => job.id = jobId)
    | _ => none)

/-- The messages the row has heard. -/
def told (past : List (RowView × RowAction)) : List ServerEvent :=
  past.filterMap (fun step =>
    match step.2 with
    | .ws a =>
      match step.1.hook.heard a with
      | some (_, .message msg) => some msg
      | _ => none
    | _ => none)

/-- The message comes in the order of a single attempt: progress that does not fall, and then, once, the completion or the failure. -/
def ServerEvent.InOrder (msg : ServerEvent) (before : List ServerEvent) : Prop :=
  (∀ earlier ∈ before, earlier.type = "job:progress") ∧
    (msg.type = "job:completed" ∨ msg.type = "job:failed" ∨ msg.type = "job:progress" ∧ msg.status = some .active ∧
      ∃ n, msg.progress = some n ∧ ∀ earlier ∈ before, ∀ m, earlier.progress = some m → n.lt m = false)

/-- The refetches deliver the job with advancing status and progress, and its events come in order. -/
structure SingleAttempt (s₀ : RowView) (p : RowView × List (RowView × RowAction)) (a : RowAction) : Prop where
  advancing : ∀ key list job, a = .refetch key list → job ∈ list → job.id = s₀.job.id →
    ∀ earlier ∈ s₀.job :: served s₀.job.id p.2, ¬ Behind job.status job.progress earlier
  inOrder : ∀ b jobId msg, a = .ws b → p.1.hook.heard b = some (jobId, .message msg) → msg.InOrder (told p.2)

/-! ## The condition -/

/-- The status and the progress an event tells; the failure of a job leaves the progress that was shown. -/
def ServerEvent.news (msg : ServerEvent) (shown : JsNumber) : Option (JobStatus × JsNumber) :=
  if msg.type = "job:progress" then some (msg.status.getD .active, msg.progress.getD (.finite 0))
  else if msg.type = "job:completed" then some (.completed, .finite 100)
  else if msg.type = "job:failed" then some (.failed, shown)
  else none

/-- The effect of the row ran last with this state of the hook, for an active job, under this key. -/
def RowView.Written (s : RowView) (status : JobStatus) (progress : JsNumber) (key : ListKey) : Prop :=
  s.deps = some ⟨progress, status, true, key⟩

/-- The conditions on a step, none where the effect of the row ran last with the state in question: an event that an active row hears is
not behind the job that is cached; a list that is fetched for it has the job not ahead of the state of the hook; and the props of an
active job are not ahead of that state when the list renders the row with them. -/
structure KeepsUp (kind : RowHook) (s : RowView) (a : RowAction) : Prop where
  heard : ∀ b jobId msg status progress, a = .ws b → s.hook.heard b = some (jobId, .message msg) →
    msg.news s.hook.state.progress = some (status, progress) → s.job.isActive = true → ∀ job, s.cached s.key = some job →
      s.Written status progress s.key ∨ ¬ Behind status progress job
  refetched : ∀ list, a = .refetch s.key list → s.job.isActive = true → ∀ job ∈ list, job.id = s.job.id →
    s.Written s.hook.state.status s.hook.state.progress s.key ∨ ¬ Behind s.hook.state.status s.hook.state.progress job
  rendered : ∀ listStatus listPage token job, a = .render listStatus listPage token →
    s.cached (kind.listKey listStatus listPage) = some job → job.isActive = true →
      s.Written s.hook.state.status s.hook.state.progress (kind.listKey listStatus listPage) ∨
        ¬ Behind s.hook.state.status s.hook.state.progress job

/-! ## One step -/

theorem lt_self (n : JsNumber) : n.lt n = false := by
  cases n with
  | finite x => simp [JsNumber.lt]
  | infinite negative => cases negative <;> rfl

theorem not_behind_self (job : ListedJob) : ¬ Behind job.status job.progress job := by
  rintro (hrank | hlt)
  · exact Nat.lt_irrefl _ hrank
  · rw [lt_self] at hlt
    cases hlt

/-- A list that stays as it is holds nothing that is behind itself. -/
theorem not_behind_same {list : JobList} {job job' : ListedJob} (hjob : job ∈ list) (hjob' : job' ∈ list) (hid : job.id = job'.id) :
    ¬ Behind job'.status job'.progress job := by
  rw [list.eq_of_key_eq hjob hjob' hid]
  exact not_behind_self job'

/-- The row is level: its effect is not due for an active job, or the state of the hook is not behind the job that is cached. -/
def RowView.Level (s : RowView) : Prop :=
  s.job.isActive = true → ∀ job, s.cached s.key = some job →
    s.Written s.hook.state.status s.hook.state.progress s.key ∨ ¬ Behind s.hook.state.status s.hook.state.progress job

/-- What is cached of the job. -/
theorem cached_eq_some {key : ListKey} {job : ListedJob} :
    s.cached key = some job ↔ ∃ list, s.cache key = some list ∧ job ∈ list ∧ job.id = s.job.id := by
  simp only [RowView.cached, Option.bind_eq_some_iff]
  exact exists_congr (fun list => and_congr_right (fun _ => Table.find?_eq_some_iff))

/-- What is cached of the job depends on the cache and the id of the job alone. -/
theorem cached_rendered {job : ListedJob} {key key' : ListKey} {hook : Hook} (hid : job.id = s.job.id) :
    ({ s with job := job, key := key', hook := hook } : RowView).cached key = s.cached key := by
  simp only [RowView.cached, hid]

/-- The dependencies of an active row. -/
theorem written_iff (hactive : s.job.isActive = true) :
    s.Written s.hook.state.status s.hook.state.progress s.key ↔ s.deps = some s.currentDeps := by
  simp [RowView.Written, RowView.currentDeps, RowView.depsOf, hactive]

/-- The effect moves nothing backwards just when the row is level. -/
theorem neverBack_iff : NeverBack kind s ↔ s.Level := by
  constructor
  · intro h hactive job hcached
    obtain ⟨rows, hrows, hjob, hid⟩ := cached_eq_some.1 hcached
    rw [written_iff hactive, or_iff_not_imp_left]
    intro hdue hbehind
    have hstep : s.effect = some { s with deps := some s.currentDeps, cache := s.setQueryData } := by
      rw [RowView.effect, if_neg hdue, if_pos hactive]
    have hwritten : s.setQueryData s.key = some (rows.update (fun job => job.id = s.job.id)
        (fun job => { job with progress := s.hook.state.progress, status := s.hook.state.status }) (fun _ => rfl)) := by
      simp [RowView.setQueryData, hrows]
    have hmem : ({ job with progress := s.hook.state.progress, status := s.hook.state.status } : ListedJob) ∈
        rows.update (fun job => job.id = s.job.id)
          (fun job => { job with progress := s.hook.state.progress, status := s.hook.state.status }) (fun _ => rfl) :=
      Table.mem_update.mpr ⟨job, hjob, if_pos (decide_eq_true hid)⟩
    exact h _ hstep s.key rows _ hrows hwritten job hjob _ hmem hid hid hbehind
  · intro h s' hs key list list' hlist hlist' job hjob job' hjob' hid hid'
    have hsame (heq : s'.cache key = s.cache key) : ¬ Behind job'.status job'.progress job := by
      rw [heq, hlist] at hlist'
      cases hlist'
      exact not_behind_same hjob hjob' (hid.trans hid'.symm)
    simp only [rowView, RowView.step, RowView.effect] at hs
    split at hs
    · cases hs
    rename_i hdue
    cases hs
    by_cases hactive : s.job.isActive = true
    · by_cases hkey : key = s.key
      · subst hkey
        simp only [hactive, if_true, RowView.setQueryData, hlist, Option.map_some, Option.some.injEq] at hlist'
        subst hlist'
        obtain ⟨old, -, hnew⟩ := Table.mem_update.mp hjob'
        by_cases hold : old.id = s.job.id
        · rw [if_pos (decide_eq_true hold)] at hnew
          subst hnew
          have hlevel := h hactive job (cached_eq_some.2 ⟨list, hlist, hjob, hid⟩)
          exact hlevel.resolve_left (fun hwritten => hdue ((written_iff hactive).1 hwritten))
        · rw [if_neg (by simpa using hold)] at hnew
          subst hnew
          exact absurd hid' hold
      · exact hsame (by simp only [hactive, if_true, RowView.setQueryData, if_neg hkey])
    · exact hsame (by simp only [if_neg hactive])

/-- A row that has just been mounted is level: the hook has the state of the job it is rendered with. -/
theorem level_mount (hs : (rowView kind).init s) : s.Level := by
  obtain ⟨listStatus, listPage, token, cache, list, job, hlist, hjob, rfl⟩ := hs
  intro _ job' hcached
  obtain ⟨rows, hrows, hjob', hid⟩ := cached_eq_some.1 hcached
  have hrows' : cache (kind.listKey listStatus listPage) = some rows := hrows
  rw [hlist] at hrows'
  cases hrows'
  have heq : job' = job := list.eq_of_key_eq hjob' hjob hid
  subst heq
  exact Or.inr (not_behind_self job')

/-- A message sets the status and the progress it tells, and leaves them when it tells none. -/
theorem handle_news (state : JobWsState) (msg : ServerEvent) :
    (msg.news state.progress = none ∧ (state.handle (.message msg)).status = state.status ∧
      (state.handle (.message msg)).progress = state.progress) ∨
    msg.news state.progress = some ((state.handle (.message msg)).status, (state.handle (.message msg)).progress) := by
  simp only [ServerEvent.news, JobWsState.handle]
  split
  · exact Or.inr rfl
  · split
    · exact Or.inr rfl
    · split
      · exact Or.inr rfl
      · exact Or.inl ⟨rfl, rfl, rfl⟩

/-- What the hook for the events does besides a render leaves the state, or sets the one of the event it heard. -/
theorem hook_state {h h' : Hook} {b : HookAction} (hs : h.step b = some h') (hb : ∀ jobId token initial, b ≠ .render jobId token initial) :
    h'.state = h.stateAfter b := by
  rcases Hook.step_state hs with ⟨jobId, token, initial, rfl, -⟩ | ⟨-, -, hstate⟩
  · exact absurd rfl (hb jobId token initial)
  · exact hstate

/-- What a step of a row does: it changes the cache, the props, or the hook for the events, or it is the effect. -/
inductive RowViewDoes (kind : RowHook) (s : RowView) : RowAction → RowView → Prop where
  | refetched (key : ListKey) (list : JobList) :
      RowViewDoes kind s (.refetch key list) { s with cache := fun other => if other = key then some list else s.cache other }
  | rendered {listStatus listPage token job hook} (hjob : s.cached (kind.listKey listStatus listPage) = some job)
      (hstate : hook.state = s.hook.state) :
      RowViewDoes kind s (.render listStatus listPage token) { s with job := job, key := kind.listKey listStatus listPage, hook := hook }
  | tokenSet {token hook} (hstate : hook.state = s.hook.state) : RowViewDoes kind s (.setToken token) { s with hook := hook }
  | heard {b hook} (hstate : hook.state = s.hook.stateAfter b) : RowViewDoes kind s (.ws b) { s with hook := hook }
  | effect {cache} : RowViewDoes kind s .effect { s with deps := some s.currentDeps, cache := cache }

theorem row_step_cases (hs : (rowView kind).step s a = some s') : RowViewDoes kind s a s' := by
  cases a with
  | refetch key list =>
    cases hs
    exact .refetched key list
  | render listStatus listPage token =>
    obtain ⟨job, hjob, hmap⟩ := Option.bind_eq_some_iff.mp hs
    obtain ⟨hook, hhook, rfl⟩ := Option.map_eq_some_iff.mp hmap
    cases hhook
    exact .rendered hjob rfl
  | setToken token =>
    cases hs
    exact .tokenSet rfl
  | ws b =>
    cases b with
    | render => cases hs
    | effect | opened | message | errored | closed =>
      obtain ⟨hook, hhook, rfl⟩ := Option.map_eq_some_iff.mp hs
      exact .heard (hook_state hhook (by nofun))
  | effect =>
    simp only [rowView, RowView.step, RowView.effect] at hs
    split at hs
    · cases hs
    · cases hs
      exact .effect

/-- The job a list renders is the one of the row. -/
theorem id_of_cached {key : ListKey} {job : ListedJob} (h : s.cached key = some job) : job.id = s.job.id := by
  obtain ⟨-, -, -, hid⟩ := cached_eq_some.1 h
  exact hid

/-- What an active row shows is what its effect has put into the list. -/
theorem cached_effect (hs : (rowView kind).step s .effect = some s') (hactive : s.job.isActive = true) {job : ListedJob}
    (hjob : s'.cached s'.key = some job) : job.status = s'.liveStatus ∧ job.progress = s'.liveProgress := by
  have hid := id_of_cached hjob
  simp only [rowView, RowView.step, RowView.effect] at hs
  split at hs
  · cases hs
  cases hs
  obtain ⟨list', hlist', hfind⟩ := Option.bind_eq_some_iff.mp hjob
  have hmem := List.mem_of_find?_eq_some hfind
  simp only [if_true, RowView.setQueryData, Option.map_eq_some_iff] at hlist'
  obtain ⟨list, -, rfl⟩ := hlist'
  obtain ⟨old, -, hnew⟩ := Table.mem_update.mp hmem
  by_cases hold : old.id = s.job.id
  · rw [if_pos (decide_eq_true hold)] at hnew
    subst hnew
    simp [RowView.liveStatus, RowView.liveProgress, hactive]
  · rw [if_neg (by simpa using hold)] at hnew
    subst hnew
    exact absurd hid hold

/-- What an event makes of the status and the progress the hook has: it is a message that tells others, or they stay. -/
theorem stateAfter_news (h : Hook) (b : HookAction) :
    (h.stateAfter b).status = h.state.status ∧ (h.stateAfter b).progress = h.state.progress ∨
      ∃ jobId msg, h.heard b = some (jobId, .message msg) ∧
        msg.news h.state.progress = some ((h.stateAfter b).status, (h.stateAfter b).progress) := by
  unfold Hook.stateAfter
  rcases h.heard b with _ | ⟨jobId, msg | _⟩
  · exact Or.inl ⟨rfl, rfl⟩
  · rcases handle_news h.state msg with ⟨-, hsame⟩ | hnews
    · exact Or.inl hsame
    · exact Or.inr ⟨jobId, msg, rfl, hnews⟩
  · exact Or.inl ⟨rfl, rfl⟩

/-- A row whose hook keeps its status and its progress stays level. -/
theorem level_hook {hook : Hook} (hstatus : hook.state.status = s.hook.state.status)
    (hprogress : hook.state.progress = s.hook.state.progress) : ({ s with hook := hook } : RowView).Level ↔ s.Level := by
  simp only [RowView.Level, RowView.Written, hstatus, hprogress]
  rfl

/-- A step that keeps up keeps the row level. -/
theorem level_step (hs : (rowView kind).step s a = some s') (hok : KeepsUp kind s a) (h : s.Level) : s'.Level := by
  cases row_step_cases hs with
  | refetched key list =>
    intro hactive job hcached
    obtain ⟨rows, hrows, hjob, hid⟩ := cached_eq_some.1 hcached
    dsimp only at hrows
    split at hrows
    · rename_i hkey
      cases hrows
      exact hok.refetched list (by rw [hkey]) hactive job hjob hid
    · exact h hactive job (cached_eq_some.2 ⟨rows, hrows, hjob, hid⟩)
  | @rendered _ _ _ job hook hjob hstate =>
    intro hactive job' hcached
    rw [cached_rendered (id_of_cached hjob), hjob] at hcached
    cases hcached
    dsimp only
    rw [hstate]
    exact hok.rendered _ _ _ job rfl hjob hactive
  | tokenSet hstate => exact (level_hook (by rw [hstate]) (by rw [hstate])).2 h
  | @heard b hook hstate =>
    rcases stateAfter_news s.hook b with ⟨hstatus, hprogress⟩ | ⟨jobId, msg, hheard, hnews⟩
    · exact (level_hook (by rw [hstate, hstatus]) (by rw [hstate, hprogress])).2 h
    · intro hactive job hcached
      dsimp only
      rw [hstate]
      exact hok.heard b jobId msg _ _ rfl hheard hnews hactive job hcached
  | effect =>
    intro hactive job _
    exact Or.inl ((written_iff (s := { s with deps := some s.currentDeps, cache := _ }) hactive).2 rfl)

/-- A step that does not keep up leaves the row where its effect moves the job backwards. -/
theorem keepsUp_of_level (hs : (rowView kind).step s a = some s') (h : s'.Level) : KeepsUp kind s a := by
  cases row_step_cases hs with
  | refetched key list =>
    refine ⟨fun _ _ _ _ _ heq => (nomatch heq), fun list' heq hactive job hjob hid => ?_, fun _ _ _ _ heq => (nomatch heq)⟩
    cases heq
    exact h hactive job (cached_eq_some.2 ⟨list, if_pos rfl, hjob, hid⟩)
  | @rendered _ _ _ job hook hjob hstate =>
    refine ⟨fun _ _ _ _ _ heq => (nomatch heq), fun _ heq => (nomatch heq), fun _ _ _ job' heq hjob' hactive => ?_⟩
    cases heq
    rw [hjob] at hjob'
    cases hjob'
    have hlevel := h hactive job ((cached_rendered (id_of_cached hjob)).trans hjob)
    dsimp only at hlevel
    rw [hstate] at hlevel
    exact hlevel
  | tokenSet | effect =>
    exact ⟨fun _ _ _ _ _ heq => (nomatch heq), fun _ heq => (nomatch heq), fun _ _ _ _ heq => (nomatch heq)⟩
  | @heard b hook hstate =>
    refine ⟨fun b' jobId msg status progress heq hheard hnews hactive job hcached => ?_, fun _ heq => (nomatch heq),
      fun _ _ _ _ heq => (nomatch heq)⟩
    cases heq
    have hset : hook.state = s.hook.state.handle (.message msg) := by rw [hstate, Hook.stateAfter, hheard]
    rcases handle_news s.hook.state msg with ⟨hnone, -⟩ | hsome
    · rw [hnone] at hnews
      cases hnews
    · rw [hnews] at hsome
      cases hsome
      have hlevel := h hactive job hcached
      dsimp only at hlevel
      rw [hset] at hlevel
      exact hlevel

/-! ## Every run -/

/-- The cache is never moved backwards in the runs that keep up; and after a step that does not, the effect of the row moves it
backwards when it runs next. -/
theorem row_cache_forward (kind : RowHook) :
    CacheForward kind (fun _ p a => KeepsUp kind p.1 a) ∧
      ∀ s a s', (rowView kind).step s a = some s' → ¬ KeepsUp kind s a → ¬ NeverBack kind s' := by
  constructor
  · intro s₀ hinit s past hs
    have hlevel := hs.induct (fun p => p.1.Level) (level_mount hinit) ?_
    · exact neverBack_iff.mpr hlevel
    · rintro ⟨s₁, past₁⟩ a p' h hok hstep
      obtain ⟨s₂, hs₂, rfl⟩ := Option.map_eq_some_iff.mp hstep
      exact level_step hs₂ hok h
  · intro s a s' hs hnot hback
    exact hnot (keepsUp_of_level hs (neverBack_iff.mp hback))

/-! ## Events in order -/

/-- What is not behind a number is not behind what that is not behind. -/
theorem lt_of_not_lt {x y z : JsNumber} (h : x.lt y = false) (hz : x.lt z = true) : y.lt z = true := by
  cases x <;> cases y <;> cases z <;> simp_all [JsNumber.lt]
  exact lt_of_le_of_lt h hz

/-- What advances on a state that is not behind a job is not behind it either. -/
theorem not_behind_of_advance {status status' : JobStatus} {progress progress' : JsNumber} {job : ListedJob}
    (hrank : status.rank ≤ status'.rank) (hprogress : progress'.lt progress = false) (h : ¬ Behind status progress job) :
    ¬ Behind status' progress' job := by
  rintro (hlt | hlt)
  · exact h (Or.inl (Nat.lt_of_le_of_lt hrank hlt))
  · exact h (Or.inr (lt_of_not_lt hprogress hlt))

/-- A message that is heard is told; nothing else is. -/
theorem told_ws {past : List (RowView × RowAction)} (b : HookAction) : told ((s, .ws b) :: past) =
    match s.hook.heard b with
    | some (_, .message msg) => msg :: told past
    | _ => told past := by
  simp only [told, List.filterMap_cons]
  rcases s.hook.heard b with _ | ⟨jobId, msg | _⟩ <;> rfl

/-- Once the hook has heard events in order, it shows what the last has told, unless the job has ended. -/
theorem told_state {s₀ : RowView} {past : List (RowView × RowAction)}
    (h : (rowView kind).withPast.Steps (SingleAttempt s₀) (s₀, []) (s, past)) :
    told past = [] ∨ (∃ msg ∈ told past, msg.type ≠ "job:progress") ∨
      s.hook.state.status = .active ∧ ∃ msg ∈ told past, msg.progress = some s.hook.state.progress := by
  refine h.induct (fun p => told p.2 = [] ∨ (∃ msg ∈ told p.2, msg.type ≠ "job:progress") ∨
    p.1.hook.state.status = .active ∧ ∃ msg ∈ told p.2, msg.progress = some p.1.hook.state.progress) (Or.inl rfl) ?_
  rintro ⟨s₁, past₁⟩ a p' hI hok hstep
  obtain ⟨s₂, hs₂, rfl⟩ := Option.map_eq_some_iff.1 hstep
  cases row_step_cases hs₂ with
  | refetched | effect => exact hI
  | rendered _ hstate | tokenSet hstate =>
    dsimp only at hI ⊢
    rw [hstate]
    exact hI
  | @heard b hook hstate =>
    dsimp only at hI ⊢
    rw [told_ws, hstate]
    unfold Hook.stateAfter
    rcases hheard : s₁.hook.heard b with _ | ⟨jobId, msg | _⟩
    · exact hI
    · obtain ⟨-, htype | htype | ⟨htype, hstatus, n, hn, -⟩⟩ := hok.inOrder b jobId msg rfl hheard
      · exact Or.inr (Or.inl ⟨msg, List.mem_cons_self, by rw [htype]; decide⟩)
      · exact Or.inr (Or.inl ⟨msg, List.mem_cons_self, by rw [htype]; decide⟩)
      · refine Or.inr (Or.inr ⟨?_, msg, List.mem_cons_self, ?_⟩)
        · simp [JobWsState.handle, htype, hstatus]
        · simp [JobWsState.handle, htype, hn]
    · exact hI

/-- An event that comes in order, after another, keeps up as long as the list holds nothing ahead of what is shown. -/
theorem keepsUp_of_inOrder {s₀ : RowView} {past : List (RowView × RowAction)} {b : HookAction} {jobId : String} {msg : ServerEvent}
    (h : (rowView kind).withPast.Steps (SingleAttempt s₀) (s₀, []) (s, past)) (hheard : s.hook.heard b = some (jobId, .message msg))
    (hmsg : msg.InOrder (told past)) (hafter : told past ≠ []) (hhundred : (JsNumber.finite 100).lt s.hook.state.progress = false)
    (hcache : ∀ job, s.cached s.key = some job → ¬ Behind s.hook.state.status s.hook.state.progress job) : KeepsUp kind s (.ws b) := by
  rcases told_state h with hnone | ⟨ended, hended, htype⟩ | ⟨hactive, earlier, hearlier, hprogress⟩
  · exact absurd hnone hafter
  · exact absurd (hmsg.1 ended hended) htype
  refine ⟨fun b' jobId' msg' status progress heq hheard' hnews _ job hcached => Or.inr ?_, fun _ heq => (nomatch heq),
    fun _ _ _ _ heq => (nomatch heq)⟩
  cases heq
  rw [hheard] at hheard'
  cases hheard'
  have hadvances : s.hook.state.status.rank ≤ status.rank ∧ progress.lt s.hook.state.progress = false := by
    rw [hactive]
    obtain ⟨-, htype | htype | ⟨htype, hstatus, n, hn, hle⟩⟩ := hmsg
    · simp [ServerEvent.news, htype] at hnews
      obtain ⟨rfl, rfl⟩ := hnews
      exact ⟨by decide, hhundred⟩
    · simp [ServerEvent.news, htype] at hnews
      obtain ⟨rfl, rfl⟩ := hnews
      exact ⟨by decide, lt_self _⟩
    · simp [ServerEvent.news, htype, hstatus, hn] at hnews
      obtain ⟨rfl, rfl⟩ := hnews
      exact ⟨Nat.le_refl _, hle earlier hearlier _ hprogress⟩
  exact not_behind_of_advance hadvances.1 hadvances.2 (hcache job hcached)

/-! ## A refetch alone -/

/-- A list of one job. -/
def JobList.single (job : ListedJob) : JobList := ⟨[job], List.nodup_singleton _⟩

/-- A job before its worker has it, and after its first progress. -/
def waitingJob : ListedJob := ⟨"j", .pending, .finite 0⟩

@[inherit_doc waitingJob] def startedJob : ListedJob := ⟨"j", .active, .finite 10⟩

/-- The row of the waiting job. -/
def waitingRow (kind : RowHook) : RowView :=
  .mount waitingJob (kind.listKey none 1) (some "token") (fun _ => some (.single waitingJob))

/-- The row once its effects have run: the hook for its events has no job id, and nothing was written. -/
def settledRow (kind : RowHook) : RowView :=
  { waitingRow kind with
    hook := ⟨none, some "token", .init waitingJob.initial, some ⟨none, some "token", .pending⟩, none, []⟩
    deps := some ⟨.finite 0, .pending, false, kind.listKey none 1⟩ }

/-- The row rendered with what a refetch has brought, after the effect that opens its socket. -/
def startedRow (kind : RowHook) : RowView :=
  { settledRow kind with
    job := startedJob
    hook := ⟨some "j", some "token", .init waitingJob.initial, some ⟨some "j", some "token", .pending⟩, some 0,
      [⟨"j", "token", .connecting, []⟩]⟩
    cache := fun other => if other = kind.listKey none 1 then some (.single startedJob) else some (.single waitingJob) }

/-- Steps that bring no list and hear nothing are those of a single attempt. -/
theorem singleAttempt_quiet {s₀ : RowView} {p : RowView × List (RowView × RowAction)} (hlist : ∀ key list, a ≠ .refetch key list)
    (hheard : ∀ b, a = .ws b → p.1.hook.heard b = none) : SingleAttempt s₀ p a where
  advancing _ _ _ heq := absurd heq (hlist _ _)
  inOrder b _ _ heq hmsg := by
    rw [hheard b heq] at hmsg
    cases hmsg

theorem singleAttempt_effects {s₀ : RowView} {p : RowView × List (RowView × RowAction)} (ha : a = .ws .effect ∨ a = .effect) :
    SingleAttempt s₀ p a := by
  refine singleAttempt_quiet ?_ ?_
  · rintro key list rfl
    rcases ha with h | h <;> cases h
  · rintro b rfl
    rcases ha with h | h
    · cases h
      rfl
    · cases h

theorem settled_steps (kind : RowHook) : ∃ past, served "j" past = [] ∧
    (rowView kind).withPast.Steps (SingleAttempt (waitingRow kind)) (waitingRow kind, []) (settledRow kind, past) := by
  have hws : (rowView kind).step (waitingRow kind) (.ws .effect) =
      some { waitingRow kind with hook := (settledRow kind).hook } := rfl
  have hmounted : (rowView kind).withPast.Steps (SingleAttempt (waitingRow kind)) (waitingRow kind, []) (waitingRow kind, []) := .refl
  have hfirst := hmounted.tail_past _ (singleAttempt_effects (.inl rfl)) hws
  exact ⟨_, rfl, hfirst.tail_past .effect (singleAttempt_effects (.inr rfl)) rfl⟩

/-- The started job is not behind the waiting one. -/
theorem started_advances : ¬ Behind startedJob.status startedJob.progress waitingJob := by
  rintro (hrank | hlt)
  · exact absurd hrank (by decide)
  · exact absurd hlt (by decide)

/-- The refetch delivers the job ahead of the one the row was mounted with. -/
theorem singleAttempt_fetched {kind : RowHook} {past : List (RowView × RowAction)} (hserved : served "j" past = []) :
    SingleAttempt (waitingRow kind) (s, past) (.refetch (kind.listKey none 1) (.single startedJob)) where
  advancing key list job heq hjob _ earlier hearlier := by
    cases heq
    have hold : earlier = waitingJob := by
      have hserved' : served (waitingRow kind).job.id past = [] := hserved
      rw [hserved'] at hearlier
      exact List.mem_singleton.mp hearlier
    have hnew : job = startedJob := List.mem_singleton.mp hjob
    rw [hnew, hold]
    exact started_advances
  inOrder _ _ _ heq := nomatch heq

theorem started_steps (kind : RowHook) :
    ∃ past, (rowView kind).withPast.Steps (SingleAttempt (waitingRow kind)) (waitingRow kind, []) (startedRow kind, past) := by
  obtain ⟨past, hserved, hsettled⟩ := settled_steps kind
  have hfetch : (rowView kind).step (settledRow kind) (.refetch (kind.listKey none 1) (.single startedJob)) =
      some { settledRow kind with cache := (startedRow kind).cache } := rfl
  have hfetched := hsettled.tail_past _ (singleAttempt_fetched hserved) hfetch
  have hrender : (rowView kind).step { settledRow kind with cache := (startedRow kind).cache } (.render none 1 (some "token")) =
      some { startedRow kind with hook := { (settledRow kind).hook with jobId := some "j" } } := by
    simp [rowView, RowView.step, RowView.cached, startedRow, JobList.single, settledRow, waitingRow, RowView.mount, startedJob, waitingJob,
      Hook.step, ListedJob.wsJobId, ListedJob.isActive]
  have hrendered := hfetched.tail_past _ (singleAttempt_quiet (by simp) (by simp)) hrender
  exact ⟨_, hrendered.tail_past (.ws .effect) (singleAttempt_effects (.inl rfl)) rfl⟩

/-- The effect of the row is due there, with the state of the first render. -/
theorem started_back (kind : RowHook) : ¬ NeverBack kind (startedRow kind) := by
  intro h
  have hcached : (startedRow kind).cached (startedRow kind).key = some startedJob := by
    refine cached_eq_some.2 ⟨.single startedJob, ?_, List.mem_singleton_self _, rfl⟩
    simp [startedRow, settledRow, waitingRow, RowView.mount]
  rcases neverBack_iff.mp h rfl startedJob hcached with hwritten | hlevel
  · simp [RowView.Written, startedRow, settledRow] at hwritten
  · exact hlevel (.inl Nat.zero_lt_one)

/-- Neither hook keeps the cache from moving backwards: the effect writes what the row was first rendered with. -/
theorem not_cacheForward :
    ¬ CacheForward .useJobPageRowState SingleAttempt ∧ ¬ CacheForward .useJobRowState SingleAttempt := by
  have hnot (kind : RowHook) : ¬ CacheForward kind SingleAttempt := by
    intro h
    obtain ⟨past, hsteps⟩ := started_steps kind
    have hinit : (rowView kind).init (waitingRow kind) :=
      ⟨none, 1, some "token", _, .single waitingJob, waitingJob, rfl, List.mem_singleton_self _, rfl⟩
    exact started_back kind (h _ hinit _ past hsteps)
  exact ⟨hnot _, hnot _⟩

end FileProcessing
