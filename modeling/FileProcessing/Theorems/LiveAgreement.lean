import FileProcessing.Lemmas.LiveLinks

/-!
# The live view agrees with the job at rest

Neither Redis nor the hook keeps a history, a failed attempt is announced as the failure of the job, and a page that shows a
terminal status stops listening. So the page agrees with the row at rest in the runs where, once nothing is left to announce, what
is on its way to the page tells the status of the row: no step then loses an event, and the last announcement is the true one.
-/

namespace FileProcessing

variable {cfg : Config} {s s' : Live} {a : LiveAction}

/-- The task has still something to do for the job. -/
def Task.working (jobId : Uuid) : Task → Bool
  | .createJob _ _ _ _ (.add row) => row.id = jobId
  | .attempt _ data _ settled => data.jobId = jobId && !settled
  | .failedListener j _ p => j = jobId && !decide (p = .done)
  | .report r done => r.jobId = jobId && !done
  | _ => false

/-- No attempt of the job is left, and no message is in flight. -/
structure Quiescent (s : Live) (jobId : Uuid) : Prop where
  tasks : ∀ t ∈ s.platform.tasks, t.working jobId = false
  queue : ∀ job ∈ s.platform.world.queue, job.payload.jobId = jobId → job.state = .completed ∨ job.state = .failed
  redis : s.handled = s.platform.world.published.length
  up : ∀ {k l : Nat} {socket}, (s.links k).server = some l → s.hook.sockets[k]? = some socket → (s.links k).up = socket.sent.length
  down : ∀ {k l : Nat} {socket}, (s.links k).server = some l → s.hook.sockets[k]? = some socket → socket.isUp = true →
    (s.links k).down = (s.api.sentOn l).length

/-- The page displays the job of the row. -/
def Live.Displays (s : Live) (row : JobRow) : Prop := row ∈ s.platform.world.db.jobs ∧ s.hook.jobId = some row.id.text

/-- In every quiescent state the status the page shows is that of the row of the job it displays. -/
def LiveAgrees (cfg : Config) (ok : Live → LiveAction → Prop) : Prop :=
  ∀ s, (liveView cfg).Reach ok s → ∀ row, s.Displays row → Quiescent s row.id → s.hook.state.status = row.status

/-- The conditions on a step, each for the row of the job that is displayed, and none while an announcement of the job is still to come
besides what the step is about:
* the last announcement tells the status of the row (`told`);
* a task is silenced only where the last event on its way to the page tells the status of the row, and a pending job not at all
  (`silenced`, `cancelled`);
* a message is handled by the Redis subscriber while the page's socket is open and has nothing on its way to the API, or another
  message of the job is behind it, or it repeats what the page will have heard (`unheard`);
* the current socket is closed, or fails, while a message of the job is still to be handled, or nothing of the job is on its way on
  it, or what is repeats what the page has heard (`lost`);
* an event of another job that is heard late has a message of the job behind it, or tells the status of the row (`late`);
* a job becomes current in a render while the last event on its way tells the status of its row (`switched`), and a component is
  mounted with it so, or with that status and nothing on its way (`mounted`). -/
structure ViewKept (s : Live) (a : LiveAction) : Prop where
  told : ∀ row, s.Displays row → ∀ i pick ch t status, a = .platform (.exec i pick ch) → s.platform.tasks[i]? = some t →
    LastWord t row.id status → BusyBeside s.platform i row.id ∨ row.status = status
  silenced : ∀ row, s.Displays row → ∀ i pick e t, a = .platform (.reject i pick e) → s.platform.tasks[i]? = some t →
    Silenced t row.id → BusyBeside s.platform i row.id ∨ Tells (s.inbox row.id.text ++ s.unhandled row.id) row.status
  cancelled : ∀ row, s.Displays row → ∀ i pick ch, a = .platform (.exec i pick ch) →
    s.platform.tasks[i]? = some (.cancelJob row.userId row.id .cancel) → row.status = .pending → Busy s.platform row.id
  unheard : ∀ row, s.Displays row → ∀ m, a = .redis → s.platform.world.published[s.handled]? = some m → m.jobId = row.id →
    Busy s.platform row.id ∨ s.Attached row.id.text ∨ ({ s with handled := s.handled + 1 } : Live).unhandled row.id ≠ [] ∨
      Tells (s.heard ++ s.inbox row.id.text) m.event.status
  lost : ∀ row, s.Displays row → (a = .effect ∨ ∃ k, s.hook.ws = some k ∧ (a = .errored k ∨ a = .closed k)) →
    Busy s.platform row.id ∨ s.unhandled row.id ≠ [] ∨ s.inbox row.id.text = [] ∨
      ∃ status, Tells (s.heard ++ s.inbox row.id.text) status ∧ Tells s.heard status
  late : ∀ row, s.Displays row → ∀ k e socket, a = .down k → (s.arriving k).head? = some e → s.hook.sockets[k]? = some socket →
    e.jobId = some socket.jobId → socket.jobId ≠ row.id.text →
      Busy s.platform row.id ∨ s.unhandled row.id ≠ [] ∨ Tells [e] row.status
  switched : ∀ row ∈ s.platform.world.db.jobs, ∀ token initial, a = .render (some row.id.text) token initial →
    s.hook.jobId = some row.id.text ∨ Busy s.platform row.id ∨ Tells (s.inbox row.id.text ++ s.unhandled row.id) row.status
  mounted : ∀ row ∈ s.platform.world.db.jobs, ∀ token initial, a = .mount (some row.id.text) token initial →
    Busy s.platform row.id ∨ Tells (s.unhandled row.id) row.status ∨ s.unhandled row.id = [] ∧ initial.status = row.status

/-! ## The invariant -/

/-- An announcement of the job displayed is still to come, or what is on its way to the page tells the status of the row. -/
def ViewAgrees (s : Live) : Prop := ∀ row, s.Displays row → Busy s.platform row.id ∨ s.shown row.id = row.status

/-- A step of the platform changes what will be shown of a job only where a task makes its last publish of it, or the job is busy. -/
theorem shown_platform {ok : System → Action → Prop} {a : Action} {p : System} (hr : (platform cfg).Reach ok s.platform)
    (h : Stepped cfg s.platform a p) (hw : WiresSound s) (jobId : Uuid) :
    Busy p jobId ∨ ({ s with platform := p } : Live).shown jobId = s.shown jobId ∨
      ∃ i pick ch t st, a = .exec i pick ch ∧ s.platform.tasks[i]? = some t ∧ LastWord t jobId st := by
  rcases published_step hr h with hpub | ⟨i, pick, ch, t, m, ha, ht, hpub, hlast⟩
  · exact Or.inr (Or.inl (Live.shown_platform_same hpub jobId))
  by_cases hm : m.jobId = jobId
  · rcases hlast with hl | hb
    · exact Or.inr (Or.inr ⟨i, pick, ch, t, _, ha, ht, hm ▸ hl⟩)
    · exact Or.inl (hm ▸ hb)
  · exact Or.inr (Or.inl (Live.shown_platform_other hpub hw hm))

/-- A step of the platform keeps the view. -/
theorem viewAgrees_platform (hr : (liveView cfg).Reach ViewKept s) {a : Action} {p : System}
    (hp : (platform cfg).step s.platform a = some p) (hok : ViewKept s (.platform a)) (hI : ViewAgrees s) : ViewAgrees { s with platform := p } := by
  have hst := step_cases hp
  have hreach := platform_reach hr
  have hw := wiresSound hr
  rintro row' ⟨hrow', hjob⟩
  dsimp only at hrow' hjob ⊢
  -- the last announcement of a job that nothing else announces tells the status of its row
  have spoken {row : JobRow} (hd : s.Displays row) {i pick : Nat} {ch : Choice} {t : Task} {st : JobStatus} (ha : a = .exec i pick ch)
      (ht : s.platform.tasks[i]? = some t) (hl : LastWord t row.id st) :
      Busy p row.id ∨ ({ s with platform := p } : Live).shown row.id = row.status := by
    subst ha
    rcases hok.told row hd i pick ch t st rfl ht hl with hb | he
    · exact Or.inl (busyBeside_step hst rfl hb)
    · obtain ⟨m, hm, hms, hpub⟩ := lastWord_exec hst ht hl
      rw [← hm, Live.shown_platform_message hpub hw, hms]
      exact Or.inr he.symm
  rcases status_step hreach hst hrow' with hb | ⟨row, hrow, hid, hstatus⟩ | ⟨i, pick, ch, row, hrow, rfl, ht, hid, hpend, hfailed⟩
  · exact Or.inl hb
  · have hd : s.Displays row := ⟨hrow, hid ▸ hjob⟩
    rw [← hid, ← hstatus]
    rcases hI row hd with hb | hs
    · rcases busy_step hst hb with hb | ⟨i, pick, ch, t, st, ha, ht, hl⟩ | ⟨i, pick, e, t, rfl, ht, hl⟩
      · exact Or.inl hb
      · exact spoken hd ha ht hl
      · rcases hok.silenced row hd i pick e t rfl ht hl with hb | he
        · exact Or.inl (busyBeside_step hst rfl hb)
        · rw [Live.shown_platform_same (congrArg World.published (world_of_reject hst))]
          exact Or.inr (statusAfter_tells he _)
    · rcases shown_platform hreach hst hw row.id with hb | he | ⟨i, pick, ch, t, st, ha, ht, hl⟩
      · exact Or.inl hb
      · exact Or.inr (he.trans hs)
      · exact spoken hd ha ht hl
  · have hd : s.Displays row := ⟨hrow, hid ▸ hjob⟩
    have silent {i' pick' : Nat} {ch' : Choice} {t : Task} {st : JobStatus} (ha : Action.exec i pick ch = .exec i' pick' ch')
        (ht' : s.platform.tasks[i']? = some t) (hl : LastWord t row.id st) : False := by
      cases ha
      rw [ht] at ht'
      cases ht'
      cases hl
    rw [← hid]
    rcases busy_step hst (hok.cancelled row hd i pick ch rfl ht hpend) with
      hb | ⟨i', pick', ch', t, st, ha, ht', hl⟩ | ⟨_, _, _, _, ha, -, -⟩
    · exact Or.inl hb
    · exact absurd hl (silent ha ht')
    · cases ha

/-- A render, an effect and an event of a socket keep the view. -/
theorem viewAgrees_hook (hw : WiresSound s) (hm : Remembers s) {ha : HookAction} {hook : Hook} (he : a.hook = some ha)
    (hh : s.hook.step ha = some hook) (hok : ViewKept s a) (hI : ViewAgrees s) : ViewAgrees { s with hook := hook } := by
  rintro row ⟨hrow, hjob⟩
  dsimp only at hrow hjob ⊢
  -- a socket that ends loses what was on its way on it, if it is the current one
  have losing (hj : s.hook.jobId = some row.id.text) (hstep : a = .effect ∨ ∃ k, s.hook.ws = some k ∧ (a = .errored k ∨ a = .closed k)) :
      Busy s.platform row.id ∨ statusAfter (s.unhandled row.id) s.hook.state = row.status := by
    rcases hI row ⟨hrow, hj⟩ with hb | hs
    · exact Or.inl hb
    · rcases hok.lost row ⟨hrow, hj⟩ hstep with hb | hlost
      · exact Or.inl hb
      · exact Or.inr ((Live.shown_lost hm hlost).trans hs)
  have ended {k : Nat} {state : JobWsState} (hst : state.status = s.hook.state.status) (hj : s.hook.jobId = some row.id.text)
      (hstep : a = .errored k ∨ a = .closed k) : Busy s.platform row.id ∨
        ({ s with hook := { s.hook with state := state }.setReadyState k .closed } : Live).shown row.id = row.status := by
    rw [Live.shown_ended hst]
    split
    · rename_i hws
      exact losing hj (Or.inr ⟨k, hws, hstep⟩)
    · exact hI row ⟨hrow, hj⟩
  cases a with
  | render jobId token initial =>
    cases he
    cases hh
    have hj : jobId = some row.id.text := hjob
    rcases hok.switched row hrow token initial (by rw [hj]) with hsame | hb | htells
    · exact hI row ⟨hrow, hsame⟩
    · exact Or.inl hb
    · exact Or.inr (statusAfter_tells htells _)
  | effect =>
    cases he
    have hj : hook.jobId = s.hook.jobId := by
      rcases Hook.step_state hh with ⟨_, _, _, ha, -⟩ | ⟨hj, -⟩
      · cases ha
      · exact hj
    rw [Live.shown_effect hh hw]
    exact losing (hj ▸ hjob) (Or.inl rfl)
  | opened k =>
    cases he
    simp only [Hook.step] at hh
    split at hh <;> cases hh
    rename_i hk
    rw [Live.shown_opened hk]
    exact hI row ⟨hrow, hjob⟩
  | errored k =>
    cases he
    simp only [Hook.step] at hh
    split at hh <;> cases hh
    refine ended ?_ hjob (Or.inl rfl)
    simp only [Hook.stateAfter, Hook.heard]
    cases s.hook.sockets[k]? <;> rfl
  | closed k =>
    cases he
    simp only [Hook.step] at hh
    split at hh <;> cases hh
    exact ended (rfl : s.hook.state.status = s.hook.state.status) hjob (Or.inr rfl)
  | _ => cases he

/-- A step keeps the view. -/
theorem viewAgrees_step (hr : (liveView cfg).Reach ViewKept s) (h : LiveStepped cfg s a s') (hok : ViewKept s a)
    (hI : ViewAgrees s) :
    ViewAgrees s' := by
  have hw := wiresSound hr
  have hrem := remembers hr
  cases h with
  | platform hp => exact viewAgrees_platform hr hp hok hI
  | @redis m event hm he =>
    intro row hd
    rcases Live.shown_redis hm he hw row.id with hs | ⟨hid, hdeaf, hs⟩
    · rw [hs]
      exact hI row hd
    · rw [hs, ← hid]
      rcases hok.unheard row hd m rfl hm hid with hb | hl | hmissed
      · exact Or.inl (hid ▸ hb)
      · exact absurd (listening_of_attached (linksSound hr) hl) hdeaf
      · rw [Live.shown_missed hrem hm (hid ▸ hmissed), hid]
        exact hI row hd
  | gateway h hx =>
    obtain ⟨hsent, hlinks⟩ := hx.carried h
    intro row hd
    rw [Live.shown_carried hsent hlinks]
    exact hI row hd
  | mount jobId token initial =>
    rintro row ⟨hrow, hj⟩
    rw [Live.shown_mount]
    have hj' : jobId = some row.id.text := hj
    rcases hok.mounted row hrow token initial (by rw [hj']) with hb | htells | ⟨hnil, hinitial⟩
    · exact Or.inl hb
    · exact Or.inr (statusAfter_tells htells _)
    · rw [hnil]
      exact Or.inr hinitial
  | @down k l d hl hd ho =>
    intro row hdis
    obtain ⟨e, rfl, hhead, hs | ⟨socket, hsocket, hid, hne, hs⟩⟩ := Live.shown_down hl hd ho hw row.id
    · rw [hs]
      exact hI row hdis
    · rw [hs]
      rcases hI row hdis with hb | hshown
      · exact Or.inl hb
      · by_cases hnil : s.unhandled row.id = []
        · rcases hok.late row hdis k _ socket rfl hhead hsocket hid hne with hb | hbehind | htells
          · exact Or.inl hb
          · exact absurd hnil hbehind
          · rw [hnil]
            exact Or.inr (statusAfter_tells htells s.hook.state)
        · exact Or.inr ((Live.statusAfter_unhandled hnil _).trans hshown)
  | hook he hh => exact viewAgrees_hook hw hrem he hh hok hI

/-- In every run whose steps keep the view. -/
theorem viewAgrees (h : (liveView cfg).Reach ViewKept s) : ViewAgrees s := by
  refine h.invariant ?_ (fun s a s' hr hI hok hs => viewAgrees_step hr (live_step_cases hs) hok hI)
  rintro s ⟨_, _, _, rfl⟩ row ⟨hrow, -⟩
  exact absurd hrow (Table.not_mem_empty row)

/-! ## The result -/

/-- A quiescent job is not busy. -/
theorem Quiescent.not_busy {jobId : Uuid} (h : Quiescent s jobId) : ¬ Busy s.platform jobId := by
  rintro (⟨k, job, hk, hst, hid⟩ | ⟨i, t, ht, ho⟩)
  · rcases h.queue job (List.mem_of_getElem? hk) hid with hq | hq <;> rw [hq] at hst <;> cases hst
  · have hno := h.tasks t (List.mem_of_getElem? ht)
    cases ho with
    | adds _ _ _ _ hid => simp [Task.working, hid] at hno
    | attempt _ hid => simp [Task.working, hid] at hno
    | listener _ hp => simp [Task.working, hp] at hno

/-- In a quiescent state the page shows what it will show. -/
theorem Quiescent.shown {jobId : Uuid} (h : Quiescent s jobId) : s.shown jobId = s.hook.state.status := by
  have hunhandled : s.unhandled jobId = [] := by simp [Live.unhandled, h.redis]
  have hinbox : s.inbox jobId.text = [] := by
    simp only [Live.inbox]
    cases hk : s.hook.current jobId.text with
    | none => rfl
    | some k =>
      obtain ⟨-, socket, hs, -, hup⟩ := Hook.current_eq_some.1 hk
      cases hl : (s.links k).server with
      | none => simp [Live.arriving, hl]
      | some l => simp [Live.arriving, hl, h.down hl hs hup]
  simp only [Live.shown, hunhandled, hinbox]
  rfl

/-- The live view agrees with the job at rest in every run whose steps keep the view. -/
theorem live_agrees (cfg : Config) : LiveAgrees cfg ViewKept := by
  intro s hr row hd hq
  rcases viewAgrees hr row hd with hb | hs
  · exact absurd hb hq.not_busy
  · rw [← hs, hq.shown]

/-- Whether a state is quiescent. -/
def Live.atRest (s : Live) (jobId : Uuid) : Bool :=
  s.platform.tasks.all (fun t => !t.working jobId) &&
    s.platform.world.queue.all (fun job => job.payload.jobId ≠ jobId || job.state = .completed || job.state = .failed) &&
    s.handled = s.platform.world.published.length &&
    (List.range s.hook.sockets.length).all (fun k =>
      match (s.links k).server, s.hook.sockets[k]? with
      | some l, some socket =>
        (s.links k).up = socket.sent.length && (!socket.isUp || (s.links k).down = (s.api.sentOn l).length)
      | _, _ => true)

/-- A state at rest is quiescent. -/
theorem quiescent_of_atRest {jobId : Uuid} (h : s.atRest jobId = true) : Quiescent s jobId := by
  simp only [Live.atRest, Bool.and_eq_true, List.all_eq_true, List.mem_range, Bool.not_eq_true', decide_eq_true_eq] at h
  obtain ⟨⟨⟨htasks, hqueue⟩, hredis⟩, hlinks⟩ := h
  refine ⟨htasks, fun job hjob hid => ?_, hredis, fun {k l socket} hl hs => ?_, fun {k l socket} hl hs hup => ?_⟩
  · have hst := hqueue job hjob
    simpa [hid] using hst
  · have hk := hlinks k (List.getElem?_eq_some_iff.1 hs).1
    simp only [hl, hs, Bool.and_eq_true, decide_eq_true_eq] at hk
    exact hk.1
  · have hk := hlinks k (List.getElem?_eq_some_iff.1 hs).1
    simp only [hl, hs, hup, Bool.and_eq_true, decide_eq_true_eq, Bool.not_true, Bool.false_or] at hk
    exact hk.2

/-- The page displays the first job, with the status, nothing is left of it, and its row is completed. -/
def Live.restsWith (status : JobStatus) (s : Live) : Bool :=
  s.hook.jobId = some (Trace.uuid 20).text && s.hook.state.status = status && s.atRest (Trace.uuid 20) &&
    s.platform.world.db.jobs.rows.any (fun row => row.id = Trace.uuid 20 && row.status = .completed)

theorem rests_with {status : JobStatus} (h : s.restsWith status = true) :
    ∃ row, s.Displays row ∧ Quiescent s row.id ∧ s.hook.state.status = status ∧ row.status = .completed := by
  simp only [Live.restsWith, Bool.and_eq_true, decide_eq_true_eq] at h
  obtain ⟨⟨⟨hjob, hstatus⟩, hrest⟩, hrow⟩ := h
  obtain ⟨row, hrow, hid⟩ := List.any_eq_true.1 hrow
  simp only [Bool.and_eq_true, decide_eq_true_eq] at hid
  exact ⟨row, ⟨hrow, by rw [hid.1]; exact hjob⟩, by rw [hid.1]; exact quiescent_of_atRest hrest, hstatus, hid.2⟩

/-- A page that displays the first job, and has subscribed. -/
def Trace.displayed : List LiveAction :=
  (Trace.upload ++ Trace.job).map .platform ++
    [.mount (some (Trace.uuid 20).text) (some "t") ⟨.finite 0, .pending⟩, .effect, .accept 0 (some (Trace.uuid 1).text), .opened 0,
      .up 0]

/-- The calls of a compression from the insert of its output on, and its end. -/
def Trace.ends (i : Nat) : List Action := [Trace.call i 0, Trace.call i 0, .settle i]

/-! ### A run that keeps the view -/

/-- The status the next publish of the task tells, if it is its last, and the job. -/
def Task.lastWord : Task → Option (Uuid × JobStatus)
  | .attempt _ data p _ =>
    match p.stage data with
    | .announcing _ => some (data.jobId, .completed)
    | _ => none
  | .failedListener jobId _ .publish => some (jobId, .failed)
  | .report r false => if r.target = .channel then some (r.jobId, .active) else none
  | _ => none

theorem lastWord_eq {t : Task} {jobId : Uuid} {status : JobStatus} (h : LastWord t jobId status) : t.lastWord = some (jobId, status) := by
  cases h with
  | completed k b h => simp [Task.lastWord, h]
  | failed => rfl
  | progress h => simp [Task.lastWord, h]

/-- The task cancels a job. -/
def Task.cancels : Task → Bool
  | .cancelJob _ _ _ => true
  | _ => false

/-- Whether the page is attached. -/
def Live.attached (s : Live) (jobId : String) : Bool :=
  match s.hook.ws with
  | none => false
  | some k =>
    match s.hook.sockets[k]?, (s.links k).server with
    | some socket, some l =>
      socket.jobId = jobId && socket.readyState = .opened && s.api.isOpen l && (s.links k).up = socket.sent.length
    | _, _ => false

theorem attached_iff {jobId : String} : s.attached jobId = true → s.Attached jobId := by
  intro h
  unfold Live.attached at h
  split at h
  · cases h
  · rename_i k hws
    split at h
    · rename_i socket l hs hl
      simp only [Bool.and_eq_true, decide_eq_true_eq] at h
      obtain ⟨⟨⟨hj, hopen⟩, ho⟩, hup⟩ := h
      exact ⟨k, l, socket, hws, hs, hj, hopen, hl, ho, hup⟩
    · cases h

/-- A test that steps pass only where they keep the view, and that those of a run that loses nothing pass. -/
def Live.keeps (s : Live) (a : LiveAction) : Bool :=
  s.platform.world.db.jobs.rows.all (fun row =>
    match a with
    | .platform (.exec i _ _) =>
      match s.platform.tasks[i]? with
      | none => true
      | some t => !t.cancels && t.lastWord.all (fun w => w.1 ≠ row.id || w.2 = row.status)
    | .platform (.reject _ _ _) | .render _ _ _ | .errored _ | .closed _ => false
    | .redis => s.attached row.id.text
    | .effect => (s.inbox row.id.text).isEmpty
    | .down k => (s.arriving k).head?.all (fun e => e.jobId = some row.id.text)
    | .mount _ _ initial => (s.unhandled row.id).isEmpty && initial.status = row.status
    | _ => true)

theorem viewKept_of_keeps (h : s.keeps a = true) : ViewKept s a := by
  have hrow {row : JobRow} (hrow : row ∈ s.platform.world.db.jobs) := List.all_eq_true.1 h row hrow
  refine ⟨?_, ?_, ?_, ?_, ?_, ?_, ?_, ?_⟩
  · rintro row ⟨hmem, -⟩ i pick ch t status rfl ht hl
    have htest := hrow hmem
    simp only [ht, Bool.and_eq_true, lastWord_eq hl] at htest
    have hstatus : status = row.status := by simpa using htest.2
    exact Or.inr hstatus.symm
  · rintro row ⟨hmem, -⟩ i pick e t rfl
    cases hrow hmem
  · rintro row ⟨hmem, -⟩ i pick ch rfl ht
    have htest := hrow hmem
    simp only [ht] at htest
    cases htest
  · rintro row ⟨hmem, -⟩ m rfl - -
    exact Or.inr (Or.inl (attached_iff (hrow hmem)))
  · rintro row ⟨hmem, -⟩ (rfl | ⟨k, -, rfl | rfl⟩)
    · exact Or.inr (Or.inr (Or.inl (List.isEmpty_iff.1 (hrow hmem))))
    · cases hrow hmem
    · cases hrow hmem
  · rintro row ⟨hmem, -⟩ k e socket rfl hhead - hid hne
    have htest := hrow hmem
    simp only [hhead, Option.all_some, decide_eq_true_eq] at htest
    rw [hid] at htest
    exact absurd (Option.some.inj htest) hne
  · rintro row hmem token initial rfl
    cases hrow hmem
  · rintro row hmem token initial rfl
    have htest := hrow hmem
    simp only [Bool.and_eq_true, decide_eq_true_eq] at htest
    exact Or.inr (Or.inr ⟨List.isEmpty_iff.1 htest.1, htest.2⟩)

/-- A page displays a job, and hears of its start and, on the socket it then opens, of all the rest. -/
def reconnected : List LiveAction :=
  Trace.displayed ++ [.platform (.deliver 0), .platform (Trace.call 3 0), .platform (Trace.call 3 0), .redis, .down 0, .effect, .up 0,
    .accept 1 (some (Trace.uuid 1).text), .opened 1, .up 1] ++
    ((Trace.untilOutput 3 30).drop 2 ++ Trace.ends 3).map .platform ++
    [.redis, .down 1, .redis, .down 1, .redis, .down 1, .effect, .up 1]

/-- A run that keeps the view to the end: the page shows the job completed. -/
theorem live_agrees_completed : ∃ s row, (liveView Config.default).Reach ViewKept s ∧ s.Displays row ∧ Quiescent s row.id ∧
    row.status = .completed ∧ s.hook.state.status = row.status := by
  have hrun : (((liveView Config.default).when Live.keeps).run
      ⟨System.empty, Api.start, 0, .mount none none ⟨.finite 0, .pending⟩, fun _ => Link.none⟩ reconnected).any
        (Live.restsWith .completed) = true := by
    decide +kernel
  obtain ⟨s, hs, hp⟩ := Lts.steps_of_when hrun
  obtain ⟨row, hd, hq, -, hrow⟩ := rests_with hp
  have hr : (liveView Config.default).Reach ViewKept s := ⟨_, ⟨_, _, _, rfl⟩, hs.mono (fun _ _ h => viewKept_of_keeps h)⟩
  exact ⟨s, row, hr, hd, hq, hrow, live_agrees Config.default s hr row hd hq⟩

/-! ### A run that does not -/

/-- An attempt of the first job of the queue that fails when it publishes its start, and its listener. -/
def failedAttempt : List Action := [.deliver 0, Trace.call 3 0, Trace.drop 3, .settle 3, Trace.call 4 0, Trace.call 4 0]

/-- A page displays a job. Its first attempt fails, and the page hears so; the second goes through. -/
def retried : List LiveAction :=
  Trace.displayed ++ failedAttempt.map .platform ++ [.redis, .down 0, .effect, .up 0] ++
    ([Action.deliver 0] ++ Trace.untilOutput 5 30 ++ Trace.ends 5).map .platform ++ [.redis, .redis, .redis, .redis]

/-- The live view does not always agree with the job at rest: a page that has heard of the failure of an attempt shows the job as
failed for ever, and the retry has completed it. -/
theorem live_disagrees : ¬ LiveAgrees Config.default Lts.Free := by
  intro h
  have hrun : ((liveView Config.default).run
      ⟨System.empty, Api.start, 0, .mount none none ⟨.finite 0, .pending⟩, fun _ => Link.none⟩ retried).any
        (Live.restsWith .failed) = true := by
    decide +kernel
  obtain ⟨s, hs, hp⟩ := Lts.steps_of_any hrun
  obtain ⟨row, hd, hq, hfailed, hcompleted⟩ := rests_with hp
  have hagree := h s ⟨_, ⟨_, _, _, rfl⟩, hs⟩ row hd hq
  rw [hfailed, hcompleted] at hagree
  cases hagree

end FileProcessing
