import FileProcessing.Lemmas.Hook
import FileProcessing.Web.Flow
import Mathlib.Data.List.Induction

/-!
# The job the page displays

`useState` reads its argument once, so the state of `useJobWebSocket` outlives the job it is about: the next job begins with the
status, the error and the output of the one before, and a terminal status even keeps the effect from opening its socket. What is
displayed belongs to the displayed job in the runs where a job becomes current only when the state is still the one its `initial`
gives, and where no socket of an earlier job changes it afterwards.
-/

namespace FileProcessing

variable {ok : TrackedHook → HookAction → Prop}

/-! ## The properties -/

/-- The returned state is the one that the `initial` given for the current job and the events heard for it since it became current
determine. -/
def StateTold (s : TrackedHook) : Prop := s.hook.state = s.events.foldl JobWsState.handle (.init s.initial)

/-- The flow is done with the output of its own job: it shows step `done` only after a `job:completed` event of its job, and exposes
the output the last one named. -/
def DoneWithOwn {σ : Type} (K : FlowKind σ) (ok : Flow σ → FlowAction σ → Prop) (s : Flow σ) : Prop :=
  (flow K).Reach ok s → s.effectiveStep = .done →
    ∃ jobId before msg after, s.state.jobId = some jobId ∧ s.ws.events = before ++ .message msg :: after ∧
      msg.type = "job:completed" ∧ msg.jobId = some jobId ∧
      (∀ m, .message m ∈ after → m.type ≠ "job:completed") ∧ s.outputFileId = msg.outputFileId

/-- The displayed job state belongs to the displayed job, in a hook and in the two flows. -/
def DisplayedJob (ok : TrackedHook → HookAction → Prop) (okFlow : ∀ {σ : Type}, FlowKind σ → Flow σ → FlowAction σ → Prop)
    (hook : TrackedHook) (convert : Flow String) (compress : Flow Nat) : Prop :=
  (jobWebSocket.Reach ok hook → StateTold hook) ∧ DoneWithOwn convertFlow (okFlow convertFlow) convert ∧
    DoneWithOwn compressFlow (okFlow compressFlow) compress

/-- The conditions on a step of the hook: when the job id changes, the state is the one the new `initial` gives; and an event that
changes the state is heard on a socket of the current job. -/
structure FreshJob (s : TrackedHook) (a : HookAction) : Prop where
  switched : ∀ jobId token initial, a = .render jobId token initial → jobId ≠ s.hook.jobId → s.hook.state = .init initial
  late : ∀ jobId e, s.hook.heard a = some (jobId, e) → s.hook.state.handle e ≠ s.hook.state → some jobId = s.hook.jobId

/-- The conditions on a step of a flow: those on what the step is to the hook; and no `job:progress` event carries the status
`completed`, which the worker never publishes with one. -/
structure FreshFlow {σ : Type} (K : FlowKind σ) (s : Flow σ) (a : FlowAction σ) : Prop where
  hook : ∀ ha, s.hookAction K a = some ha → FreshJob s.ws ha
  progress : ∀ k msg, a = .ws (.message k (some msg)) → msg.type = "job:progress" → msg.status ≠ some .completed

/-! ## The hook -/

/-- The history after a step that does not render. -/
theorem tracked_step {s s' : TrackedHook} {a : HookAction} (hs : jobWebSocket.step s a = some s') :
    s.hook.step a = some s'.hook ∧
      ((∃ jobId token initial, a = .render jobId token initial ∧ s'.hook.jobId = jobId ∧ s'.hook.state = s.hook.state ∧
        ((jobId = s.hook.jobId ∧ s'.initial = s.initial ∧ s'.events = s.events) ∨
          (jobId ≠ s.hook.jobId ∧ s'.initial = initial ∧ s'.events = []))) ∨
      ((∀ jobId token initial, a ≠ .render jobId token initial) ∧ s'.hook.jobId = s.hook.jobId ∧ s'.initial = s.initial ∧
        s'.events = s.eventsAfter a ∧ s'.hook.state = s.hook.stateAfter a)) := by
  obtain ⟨hook, hh, he⟩ := Option.map_eq_some_iff.1 hs
  rcases Hook.step_state hh with ⟨jobId, token, initial, rfl, hj, hst⟩ | ⟨hj, hno, hst⟩
  · dsimp only at he
    split at he
    · subst he
      exact ⟨hh, Or.inl ⟨jobId, token, initial, rfl, hj, hst, Or.inl ⟨‹_›, rfl, rfl⟩⟩⟩
    · subst he
      exact ⟨hh, Or.inl ⟨jobId, token, initial, rfl, hj, hst, Or.inr ⟨‹_›, rfl, rfl⟩⟩⟩
  · cases a with
    | render jobId token initial => exact absurd rfl (hno _ _ _)
    | _ =>
      subst he
      exact ⟨hh, Or.inr ⟨hno, hj, rfl, rfl, hst⟩⟩

/-- A step keeps the state told: a job becomes current with the state of its `initial`, and nothing else changes the state but what
is heard for it. -/
theorem stateTold_step {s s' : TrackedHook} {a : HookAction} (hok : FreshJob s a) (hs : jobWebSocket.step s a = some s')
    (hI : StateTold s) : StateTold s' := by
  unfold StateTold at hI ⊢
  obtain ⟨-, ⟨jobId, token, initial, rfl, -, hst, ⟨-, hi, he⟩ | ⟨hne, hi, he⟩⟩ | ⟨-, -, hi, he, hst⟩⟩ := tracked_step hs
  · rw [hst, hi, he, hI]
  · rw [hst, hi, he, hok.switched jobId token initial rfl hne]
    rfl
  · rw [hst, hi, he]
    unfold TrackedHook.eventsAfter Hook.stateAfter
    cases hh : s.hook.heard a with
    | none => exact hI
    | some x =>
      obtain ⟨jobId, e⟩ := x
      dsimp only
      split
      · rw [List.foldl_append, ← hI]
        rfl
      · rename_i hother
        by_cases hsame : s.hook.state.handle e = s.hook.state
        · rw [hsame, hI]
        · exact absurd (hok.late jobId e hh hsame) hother

/-- In every run where each job finds a fresh state and no socket of an earlier one changes it. -/
theorem stateTold {s : TrackedHook} (h : jobWebSocket.Reach FreshJob s) : StateTold s := by
  refine h.invariant ?_ (fun s a s' _ hI hok hs => stateTold_step hok hs hI)
  rintro s ⟨jobId, token, initial, rfl⟩
  rfl

/-- The messages heard for the current job name it. -/
def EventsNamed (s : TrackedHook) : Prop := ∀ msg, .message msg ∈ s.events → msg.jobId = s.hook.jobId

/-- A message a handler hears names the job of its socket. -/
theorem heard_message {h : Hook} {a : HookAction} {jobId : String} {msg : ServerEvent}
    (hh : h.heard a = some (jobId, .message msg)) : msg.jobId = some jobId ∧ ∃ k, a = .message k (some msg) := by
  unfold Hook.heard at hh
  split at hh
  · rename_i k m
    split at hh
    · split at hh
      · rename_i hj
        simp only [Option.some.injEq, Prod.mk.injEq, HookEvent.message.injEq] at hh
        obtain ⟨rfl, rfl⟩ := hh
        exact ⟨hj, k, rfl⟩
      · cases hh
    · cases hh
  · obtain ⟨socket, -, he⟩ := Option.map_eq_some_iff.1 hh
    cases he
  · cases hh

/-- An event heard for the current job was heard before, or just now. -/
theorem mem_eventsAfter {s : TrackedHook} {a : HookAction} {e : HookEvent} (he : e ∈ s.eventsAfter a) :
    e ∈ s.events ∨ ∃ jobId, s.hook.heard a = some (jobId, e) ∧ some jobId = s.hook.jobId := by
  unfold TrackedHook.eventsAfter at he
  split at he
  · rename_i jobId x hh
    split at he
    · rename_i hj
      rcases List.mem_append.1 he with he | he
      · exact Or.inl he
      · rw [List.mem_singleton.1 he]
        exact Or.inr ⟨jobId, hh, hj⟩
    · exact Or.inl he
  · exact Or.inl he

/-- A step keeps the messages named. -/
theorem eventsNamed_step {s s' : TrackedHook} {a : HookAction} (hs : jobWebSocket.step s a = some s') (hI : EventsNamed s) :
    EventsNamed s' := by
  intro msg hmem
  obtain ⟨-, ⟨jobId, token, initial, rfl, hj, -, ⟨hj', -, he⟩ | ⟨-, -, he⟩⟩ | ⟨-, hj, -, he, -⟩⟩ := tracked_step hs
  · rw [hj, hj']
    exact hI msg (he ▸ hmem)
  · rw [he] at hmem
    cases hmem
  · rw [hj]
    rcases mem_eventsAfter (he ▸ hmem) with hmem | ⟨jobId, hh, hcur⟩
    · exact hI msg hmem
    · exact (heard_message hh).1.trans hcur

/-! ## The flows -/

/-- A step of a flow is an update of its state and an action of the hook: a render with what the flow passes, or an event. -/
theorem flow_step {σ : Type} {K : FlowKind σ} {s s' : Flow σ} {a : FlowAction σ} (hs : (flow K).step s a = some s') :
    ∃ ha, s.hookAction K a = some ha ∧ jobWebSocket.step s.ws ha = some s'.ws ∧
      ((∃ token, ha = .render s'.state.wsJobId token flowInitial) ∨
        (a = .ws ha ∧ (∀ jobId token initial, ha ≠ .render jobId token initial) ∧ s'.state = s.state)) := by
  obtain ⟨s₁, hu, hs₁⟩ := Option.bind_eq_some_iff.1 hs
  obtain ⟨ha, hh, hs₂⟩ := Option.bind_eq_some_iff.1 hs₁
  obtain ⟨ws, hw, rfl⟩ := Option.map_eq_some_iff.1 hs₂
  refine ⟨ha, hh, hw, ?_⟩
  unfold Flow.hookAction at hh
  split at hh
  · cases hh
  · rename_i x hno
    cases hh
    cases hu
    exact Or.inr ⟨rfl, fun jobId token initial he => hno jobId token initial (he ▸ rfl), rfl⟩
  · rw [hu] at hh
    cases hh
    exact Or.inl ⟨_, rfl⟩

/-- What holds of a flow in every run: the hook is rendered with the job of the flow and the initial state of the flows, and the
messages heard name that job. -/
structure FlowHook {σ : Type} (s : Flow σ) : Prop where
  jobId : s.ws.hook.jobId = s.state.wsJobId
  initial : s.ws.initial = flowInitial
  named : EventsNamed s.ws

/-- A step keeps the hook rendered so. -/
theorem flowHook_step {σ : Type} {K : FlowKind σ} {s s' : Flow σ} {a : FlowAction σ} (hs : (flow K).step s a = some s')
    (hI : FlowHook s) : FlowHook s' := by
  obtain ⟨ha, -, hw, hcase⟩ := flow_step hs
  have hnamed := eventsNamed_step hw hI.named
  rcases hcase with ⟨token, rfl⟩ | ⟨-, hno, hst⟩
  · obtain ⟨-, ⟨jobId, token', initial, heq, hj, -, ⟨-, hi, -⟩ | ⟨-, hi, -⟩⟩ | ⟨hno, -⟩⟩ := tracked_step hw
    · cases heq
      exact ⟨hj, hi.trans hI.initial, hnamed⟩
    · cases heq
      exact ⟨hj, hi, hnamed⟩
    · exact absurd rfl (hno _ _ _)
  · obtain ⟨-, ⟨jobId, token, initial, rfl, -⟩ | ⟨-, hj, hi, -⟩⟩ := tracked_step hw
    · exact absurd rfl (hno _ _ _)
    · exact ⟨by rw [hj, hI.jobId, hst], hi.trans hI.initial, hnamed⟩

/-- In every run of a flow. -/
theorem flowHook {σ : Type} {K : FlowKind σ} {ok : Flow σ → FlowAction σ → Prop} {s : Flow σ} (h : (flow K).Reach ok s) :
    FlowHook s := by
  refine h.invariant ?_ (fun s a s' _ hI _ hs => flowHook_step hs hI)
  rintro s ⟨token, rfl⟩
  exact ⟨rfl, rfl, fun msg hmem => nomatch hmem⟩

/-- A flow never stores the step `done`, and it processes a job it has. -/
def StoredStep {σ : Type} (s : Flow σ) : Prop :=
  s.state.step ≠ .done ∧ (s.state.step = .processing → ∃ jobId, s.state.jobId = some jobId)

/-- An update keeps it. -/
theorem storedStep_update {σ : Type} {K : FlowKind σ} {s s' : Flow σ} {a : FlowAction σ} (hu : s.update K a = some s')
    (hI : StoredStep s) : StoredStep s' := by
  cases a with
  | onFileSelected file =>
    cases file with
    | none =>
      cases hu
      exact hI
    | some file =>
      cases hu
      exact ⟨by nofun, by nofun⟩
  | onSubmit =>
    simp only [Flow.update] at hu
    split at hu <;> cases hu <;> exact hI
  | onReset =>
    cases hu
    exact ⟨by nofun, by nofun⟩
  | uploaded call id =>
    simp only [Flow.update] at hu
    split at hu
    · split at hu <;> cases hu <;> exact ⟨by nofun, by nofun⟩
    · cases hu
  | created call id =>
    simp only [Flow.update] at hu
    split at hu
    · split at hu <;> cases hu
      · exact ⟨by nofun, fun _ => ⟨_, rfl⟩⟩
      · exact ⟨by nofun, by nofun⟩
    · cases hu
  | setSetting | uploadProgress | setToken | ws =>
    cases hu
    exact hI

/-- In every run of a flow. -/
theorem storedStep {σ : Type} {K : FlowKind σ} {ok : Flow σ → FlowAction σ → Prop} {s : Flow σ} (h : (flow K).Reach ok s) :
    StoredStep s := by
  refine h.invariant ?_ ?_
  · rintro s ⟨token, rfl⟩
    exact ⟨by nofun, by nofun⟩
  · intro s a s' _ hI _ hs
    obtain ⟨s₁, hu, hs₁⟩ := Option.bind_eq_some_iff.1 hs
    obtain ⟨ha, -, hs₂⟩ := Option.bind_eq_some_iff.1 hs₁
    obtain ⟨ws, -, rfl⟩ := Option.map_eq_some_iff.1 hs₂
    have hI₁ : StoredStep s₁ := storedStep_update hu hI
    exact hI₁

/-- What a flow is to its hook is a run of the hook, and no progress the hook hears for its job is of a completed one. -/
def HookRuns {σ : Type} (s : Flow σ) : Prop :=
  jobWebSocket.Reach FreshJob s.ws ∧
    ∀ msg, .message msg ∈ s.ws.events → msg.type = "job:progress" → msg.status ≠ some .completed

/-- A step of the flow is one of the hook, which meets the conditions of the hook. -/
theorem hookRuns_step {σ : Type} {K : FlowKind σ} {s s' : Flow σ} {a : FlowAction σ} (hok : FreshFlow K s a)
    (hs : (flow K).step s a = some s') (hI : HookRuns s) : HookRuns s' := by
  obtain ⟨hr, hprog⟩ := hI
  obtain ⟨ha, hh, hw, hcase⟩ := flow_step hs
  refine ⟨hr.step ha (hok.hook ha hh) hw, fun msg hmem hty => ?_⟩
  obtain ⟨-, ⟨jobId, token, initial, rfl, -, -, ⟨-, -, he⟩ | ⟨-, -, he⟩⟩ | ⟨-, -, -, he, -⟩⟩ := tracked_step hw
  · exact hprog msg (he ▸ hmem) hty
  · rw [he] at hmem
    cases hmem
  · rcases mem_eventsAfter (he ▸ hmem) with hmem | ⟨jobId, hheard, -⟩
    · exact hprog msg hmem hty
    · obtain ⟨-, k, rfl⟩ := heard_message hheard
      rcases hcase with ⟨token, hcase⟩ | ⟨rfl, -⟩
      · cases hcase
      · exact hok.progress k msg rfl hty

/-- In every run of a flow where each job finds a fresh state. -/
theorem hookRuns {σ : Type} {K : FlowKind σ} {s : Flow σ} (h : (flow K).Reach (FreshFlow K) s) : HookRuns s := by
  refine h.invariant ?_ (fun s a s' _ hI hok hs => hookRuns_step hok hs hI)
  rintro s ⟨token, rfl⟩
  exact ⟨.init ⟨_, _, _, rfl⟩, fun msg hmem => nomatch hmem⟩

/-- Events that leave a state completed that was pending at first contain a completion, and the last one named the output. -/
theorem completed_of_fold {initial : InitialState} (hi : initial.status = .pending) {events : List HookEvent}
    (hprog : ∀ msg, .message msg ∈ events → msg.type = "job:progress" → msg.status ≠ some .completed)
    (hc : (events.foldl JobWsState.handle (.init initial)).status = .completed) :
    ∃ before msg after, events = before ++ .message msg :: after ∧ msg.type = "job:completed" ∧
      (∀ m, .message m ∈ after → m.type ≠ "job:completed") ∧
      (events.foldl JobWsState.handle (.init initial)).outputFileId = msg.outputFileId := by
  induction events using List.reverseRecOn with
  | nil =>
    rw [List.foldl_nil, JobWsState.init, hi] at hc
    cases hc
  | append_singleton l e ih =>
    -- an event that neither completes nor ends the job keeps what the events before it gave
    have keep (hst : (l.foldl JobWsState.handle (.init initial)).status = .completed) (hne : ∀ m, e = .message m → m.type ≠ "job:completed")
        (hout : ((l ++ [e]).foldl JobWsState.handle (.init initial)).outputFileId =
          (l.foldl JobWsState.handle (.init initial)).outputFileId) :
        ∃ before msg after, l ++ [e] = before ++ .message msg :: after ∧ msg.type = "job:completed" ∧
          (∀ m, .message m ∈ after → m.type ≠ "job:completed") ∧
          ((l ++ [e]).foldl JobWsState.handle (.init initial)).outputFileId = msg.outputFileId := by
      obtain ⟨before, msg, after, rfl, hty, hno, hm⟩ := ih (fun m hm => hprog m (List.mem_append_left _ hm)) hst
      refine ⟨before, msg, after ++ [e], by simp, hty, fun m hm' => ?_, hout.trans hm⟩
      rcases List.mem_append.1 hm' with hm' | hm'
      · exact hno m hm'
      · exact hne m (List.mem_singleton.1 hm').symm
    rw [List.foldl_append, List.foldl_cons, List.foldl_nil] at hc
    cases e with
    | error => exact keep hc (fun m hm => nomatch hm) (by rw [List.foldl_append]; rfl)
    | message msg =>
      simp only [JobWsState.handle] at hc
      split at hc
      · rename_i hty
        have hne := hprog msg (by simp) hty
        cases hst : msg.status with
        | none =>
          rw [hst] at hc
          cases hc
        | some status =>
          rw [hst] at hc hne
          exact absurd (congrArg some hc) hne
      · split at hc
        · rename_i hno hty
          refine ⟨l, msg, [], rfl, hty, fun m hm => (nomatch hm), ?_⟩
          rw [List.foldl_append, List.foldl_cons, List.foldl_nil, JobWsState.handle, if_neg hno, if_pos hty]
        · split at hc
          · cases hc
          · rename_i h1 h2 h3
            refine keep hc ?_ ?_
            · intro m hm
              cases hm
              exact h2
            · rw [List.foldl_append, List.foldl_cons, List.foldl_nil, JobWsState.handle, if_neg h1, if_neg h2, if_neg h3]

/-- A flow is done with the output of its own job in every run where each job finds a fresh state. -/
theorem done_with_own {σ : Type} (K : FlowKind σ) (s : Flow σ) : DoneWithOwn K (FreshFlow K) s := by
  intro hr hdone
  obtain ⟨hreach, hprog⟩ := hookRuns hr
  have hhook := flowHook hr
  have htold : s.ws.hook.state = s.ws.events.foldl JobWsState.handle (.init s.ws.initial) := stateTold hreach
  unfold Flow.effectiveStep at hdone
  split at hdone
  · rename_i hproc
    have hstatus : s.ws.hook.state.status = .completed := by
      by_contra hne
      rw [if_neg hne] at hdone
      split at hdone
      · cases hdone
      · rw [hproc] at hdone
        cases hdone
    rw [htold] at hstatus
    obtain ⟨before, msg, after, hevents, hty, hno, hout⟩ := completed_of_fold (by rw [hhook.initial]; rfl) hprog hstatus
    obtain ⟨jobId, hjobId⟩ := (storedStep hr).2 hproc
    have hjob : s.ws.hook.jobId = some jobId := by rw [hhook.jobId, FlowState.wsJobId, if_pos hproc, hjobId]
    have hnamed : msg.jobId = some jobId := (hhook.named msg (by rw [hevents]; simp)).trans hjob
    refine ⟨jobId, before, msg, after, hjobId, hevents, hty, hnamed, hno, ?_⟩
    rw [Flow.outputFileId, htold, hout]
  · exact absurd hdone (storedStep hr).1

/-- What is displayed belongs to the displayed job in every run where each job finds a fresh state. -/
theorem displayed_job (hook : TrackedHook) (convert : Flow String) (compress : Flow Nat) :
    DisplayedJob FreshJob FreshFlow hook convert compress := by
  refine ⟨?_, done_with_own convertFlow convert, done_with_own compressFlow compress⟩
  intro hr
  exact stateTold hr

/-- A `job:completed` event. -/
def completedEvent (jobId outputFileId : String) : ServerEvent :=
  ⟨"job:completed", some jobId, none, none, none, some outputFileId⟩

/-- The user compresses a file, resets, and submits another one. -/
def secondCompression : List (FlowAction Nat) :=
  [.onFileSelected (some ⟨"image/png"⟩), .uploaded 0 (some "f1"), .onSubmit, .created 0 (some "j1"), .ws .effect, .ws (.opened 0),
    .ws (.message 0 (some (completedEvent "j1" "o1"))), .ws .effect, .onReset, .ws .effect,
    .onFileSelected (some ⟨"image/png"⟩), .uploaded 1 (some "f2"), .onSubmit, .created 1 (some "j2")]

/-- The flow is done, and nothing was heard of its job. -/
def doneUnheard (s : Flow Nat) : Bool := s.effectiveStep = .done && s.ws.events.isEmpty

/-- What is displayed does not always belong to the displayed job: after a reset the second job is done at once, with the output of
the first. -/
theorem displayed_stale : ¬ ∀ hook convert compress, DisplayedJob Lts.Free (fun _ => Lts.Free) hook convert compress := by
  intro h
  have hrun : ((flow compressFlow).run (.mount compressFlow (some "t")) secondCompression).any doneUnheard = true := by
    decide +kernel
  obtain ⟨s, hs, hp⟩ := Lts.steps_of_any hrun
  unfold doneUnheard at hp
  rw [Bool.and_eq_true, decide_eq_true_eq, List.isEmpty_iff] at hp
  obtain ⟨-, -, hdone⟩ := h (.mount none none flowInitial) (.mount convertFlow none) s
  obtain ⟨jobId, before, msg, after, -, he, -⟩ := hdone ⟨_, ⟨_, rfl⟩, hs⟩ hp.1
  rw [hp.2] at he
  exact absurd he.symm (by simp)

end FileProcessing
