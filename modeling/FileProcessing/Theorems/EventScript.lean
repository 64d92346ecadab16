import FileProcessing.Lemmas.Locks
import FileProcessing.Theorems.RowHistory

/-!
# The script of an attempt

An attempt announces the stages of its processor in order, each once, and its completion after all of them. An attempt that throws
breaks off; what its failed `Promise.all` leaves behind is announced by tasks of their own.
-/

namespace FileProcessing

variable {cfg : Config} {ok : System → Action → Prop} {s s' : System} {a : Action} {past : List (System × Action)}

/-- The report of a stage. -/
def JobEvent.stage (n : Nat) : JobEvent := .progress n .active

/-- The events of an attempt that returns with the output `output`. -/
def script (data : JobPayload) (output : Option FileRow) : List JobEvent :=
  if Implemented data.type then [.stage 0, .stage 33, .stage 66, .completed ((output.map (·.id)).getD data.fileId)]
  else [.stage 20, .stage 40, .stage 60, .stage 80, .stage 100, .completed ((output.map (·.id)).getD data.fileId)]

/-- The messages that task `i` published in its own steps. -/
def said (cfg : Config) (i : Nat) : List (System × Action) → List Message
  | [] => []
  | (s, a) :: past => said cfg i past ++
      if a.actor = some i then
        match System.step cfg s a with
        | some s' => s'.world.published.drop s.world.published.length
        | none => []
      else []

/-- What an attempt has published is the script of its job so far, and all of it when it returned. -/
def EventsScripted (cfg : Config) : Prop :=
  ∀ s past, (platform cfg).withPast.Reach (Lts.onSteps Lts.Free) (s, past) →
    ∀ (i k : Nat) data p b, s.tasks[i]? = some (.attempt k data p b) →
      (∃ output, said cfg i past <+: (script data output).map (Message.mk data.jobId)) ∧
        ∀ output, p.stage data = .returned output → said cfg i past = (script data output).map (Message.mk data.jobId)

/-! ## What a point of a processor has said -/

/-- The reports of the stages of the default processor before stage `i`. -/
def stagesBefore (i : Nat) : List JobEvent := (List.range (i - 1)).map (fun j => .stage (stageProgress (j + 1)))

/-- The report of a stage, once the channel is no longer among its recipients. -/
def reported (todo : List ReportTarget) (n : Nat) : List JobEvent := if .channel ∈ todo then [] else [.stage n]

/-- The events an image processor has published at a point, unless it threw. -/
def ImageProcess.spoken : ImageProcess → Option (List JobEvent)
  | .markActive | .publishStart => some []
  | .findInput | .getObject _ | .readStream _ => some [.stage 0]
  | .report33 _ todo => some ([.stage 0] ++ reported todo 33)
  | .sharp _ => some [.stage 0, .stage 33]
  | .report66 _ _ todo => some ([.stage 0, .stage 33] ++ reported todo 66)
  | .putObject _ _ | .createFile _ _ | .complete _ | .publishCompleted _ => some [.stage 0, .stage 33, .stage 66]
  | .returned output => some [.stage 0, .stage 33, .stage 66, .completed output.id]
  | .threw _ => none

/-- The events the default processor has published at a point, unless it threw. -/
def DefaultProcess.spoken (data : JobPayload) : DefaultProcess → Option (List JobEvent)
  | .markActive => some []
  | .stage i => some (stagesBefore i)
  | .report i todo => some (stagesBefore i ++ reported todo (stageProgress i))
  | .complete | .publishCompleted => some (stagesBefore (stages + 1))
  | .returned => some (stagesBefore (stages + 1) ++ [.completed data.fileId])
  | .threw _ => none

/-- No recipient of a report is there twice, and the default processor is in its loop. -/
def ImageProcess.Once : ImageProcess → Prop
  | .report33 _ todo | .report66 _ _ todo => todo.Nodup
  | _ => True

def DefaultProcess.Once : DefaultProcess → Prop
  | .stage i => 1 ≤ i ∧ i ≤ stages
  | .report i todo => todo.Nodup ∧ 1 ≤ i ∧ i ≤ stages
  | _ => True

/-- The events of a call that settles. -/
def tells {α : Type} (c : Call α) (r : Except Err α) : List JobEvent :=
  match c.effect, r with
  | .publish m, .ok _ => [m.event]
  | _, _ => []

/-- What a point has said after a call settles: the attempt threw, or it said what the call tells. -/
def Continues {α : Type} (l : List JobEvent) (c : Call α) (r : Except Err α) (after : Option (List JobEvent)) : Prop :=
  (after = none ∧ tells c r = []) ∨ after = some (l ++ tells c r)

theorem tells_error {α : Type} (c : Call α) (e : Err) : tells c (.error e) = [] := by
  unfold tells
  split
  · rename_i h
    cases h
  · rfl

/-- A report of a stage speaks when its channel is served. -/
theorem promiseAll_continues {P : Type} {jobId : Uuid} {n pick : Nat} {todo : List ReportTarget} {pending : List ReportTarget → P}
    {done : P} {threw : Err → P} {aw : Await (P × List Report)} (h : promiseAll jobId n todo pick pending done threw = some aw)
    (hnd : todo.Nodup) (before : List JobEvent) (spoken : P → Option (List JobEvent))
    (hp : ∀ l, spoken (pending l) = some (before ++ reported l n)) (hd : spoken done = some (before ++ [.stage n]))
    (ht : ∀ e, spoken (threw e) = none) (r : Except Err aw.α) :
    Continues (before ++ reported todo n) aw.call r (spoken (aw.resume r).1) := by
  unfold promiseAll at h
  split at h
  · cases h
  rename_i target htarget
  cases h
  cases r with
  | error e => exact Or.inl ⟨ht e, tells_error _ e⟩
  | ok v =>
    refine Or.inr ?_
    have hmem : target ∈ todo := List.mem_of_getElem? htarget
    -- what is left of the recipients holds the channel just when it was there and was not served
    have hleft : ReportTarget.channel ∈ todo.eraseIdx pick ↔ .channel ∈ todo ∧ target ≠ .channel := by
      rw [List.mem_eraseIdx_iff_getElem?]
      constructor
      · rintro ⟨j, hj, hget⟩
        refine ⟨List.mem_of_getElem? hget, fun heq => hj ?_⟩
        subst heq
        exact (List.getElem?_inj (List.getElem?_eq_some_iff.1 hget).1 hnd).1 (hget.trans htarget.symm)
      · rintro ⟨hc, hne⟩
        obtain ⟨j, hj⟩ := List.getElem?_of_mem hc
        refine ⟨j, fun heq => hne ?_, hj⟩
        subst heq
        exact Option.some.inj (htarget.symm.trans hj)
    have htells : reported todo n ++ tells (Report.call ⟨jobId, n, target⟩) (.ok v) = reported (todo.eraseIdx pick) n := by
      unfold reported
      cases target with
      | channel =>
        rw [if_pos hmem, if_neg (fun hc => (hleft.1 hc).2 rfl)]
        rfl
      | bullJob | jobRow =>
        by_cases hc : ReportTarget.channel ∈ todo
        · rw [if_pos hc, if_pos (hleft.2 ⟨hc, nofun⟩)]
          rfl
        · rw [if_neg hc, if_neg (fun hc' => hc (hleft.1 hc').1)]
          rfl
    dsimp only
    rw [List.append_assoc, htells]
    split
    · rename_i hempty
      rw [hd, reported, List.isEmpty_iff.1 hempty, if_neg List.not_mem_nil]
    · exact hp _

/-- A point stays one where no recipient is there twice. -/
theorem promiseAll_once {P : Type} {jobId : Uuid} {n pick : Nat} {todo : List ReportTarget} {pending : List ReportTarget → P}
    {done : P} {threw : Err → P} {aw : Await (P × List Report)} (h : promiseAll jobId n todo pick pending done threw = some aw)
    (hnd : todo.Nodup) (once : P → Prop) (hp : ∀ l : List ReportTarget, l.Nodup → once (pending l)) (hd : once done)
    (ht : ∀ e, once (threw e)) (r : Except Err aw.α) : once (aw.resume r).1 := by
  unfold promiseAll at h
  split at h
  · cases h
  cases h
  cases r with
  | error e => exact ht e
  | ok v =>
    dsimp only
    split
    · exact hd
    · exact hp _ (hnd.eraseIdx pick)

theorem all_nodup : ReportTarget.all.Nodup := by decide

/-- An image processor says what its calls say. -/
theorem imageProcess_continues {P : ImageProcessor} {data : JobPayload} {pick : Nat} {p : ImageProcess}
    {aw : Await (ImageProcess × List Report)} (h : imageProcess P data pick p = some aw) (hp : p.Once) :
    ∃ l, p.spoken = some l ∧ ∀ r, Continues l aw.call r (aw.resume r).1.spoken ∧ (aw.resume r).1.Once := by
  have threw {α : Type} {l : List JobEvent} (c : Call α) (e : Err) : Continues l c (.error e) (ImageProcess.threw e).spoken :=
    Or.inl ⟨rfl, tells_error c e⟩
  cases p with
  | report33 f todo =>
    exact ⟨_, rfl, fun r => ⟨promiseAll_continues h hp [.stage 0] ImageProcess.spoken (fun _ => rfl) rfl (fun _ => rfl) r,
      promiseAll_once h hp ImageProcess.Once (fun _ hl => hl) trivial (fun _ => trivial) r⟩⟩
  | report66 f n todo =>
    exact ⟨_, rfl, fun r => ⟨promiseAll_continues h hp [.stage 0, .stage 33] ImageProcess.spoken (fun _ => rfl) rfl (fun _ => rfl) r,
      promiseAll_once h hp ImageProcess.Once (fun _ hl => hl) trivial (fun _ => trivial) r⟩⟩
  | returned | threw => cases h
  | findInput =>
    cases h
    refine ⟨_, rfl, fun r => ?_⟩
    cases r with
    | error e => exact ⟨threw _ e, trivial⟩
    | ok v =>
      cases v with
      | none => exact ⟨Or.inl ⟨rfl, rfl⟩, trivial⟩
      | some f => exact ⟨Or.inr rfl, trivial⟩
  | readStream | sharp =>
    cases h
    refine ⟨_, rfl, fun r => ?_⟩
    cases r with
    | error e => exact ⟨threw _ e, trivial⟩
    | ok v => exact ⟨Or.inr rfl, all_nodup⟩
  | _ =>
    cases h
    refine ⟨_, rfl, fun r => ?_⟩
    cases r with
    | error e => exact ⟨threw _ e, trivial⟩
    | ok v => exact ⟨Or.inr rfl, trivial⟩

/-- The reports before the next stage. -/
theorem stagesBefore_succ {i : Nat} (h : 1 ≤ i) : stagesBefore (i + 1) = stagesBefore i ++ [.stage (stageProgress i)] := by
  obtain ⟨j, rfl⟩ : ∃ j, i = j + 1 := ⟨i - 1, by omega⟩
  simp only [stagesBefore, Nat.add_sub_cancel, List.range_succ, List.map_append, List.map_cons, List.map_nil]

/-- The default processor says what its calls say. -/
theorem defaultProcess_continues {data : JobPayload} {pick : Nat} {p : DefaultProcess} {aw : Await (DefaultProcess × List Report)}
    (h : defaultProcess data pick p = some aw) (hp : p.Once) :
    ∃ l, p.spoken data = some l ∧ ∀ r, Continues l aw.call r ((aw.resume r).1.spoken data) ∧ (aw.resume r).1.Once := by
  have threw {α : Type} {l : List JobEvent} (c : Call α) (e : Err) : Continues l c (.error e) ((DefaultProcess.threw e).spoken data) :=
    Or.inl ⟨rfl, tells_error c e⟩
  cases p with
  | report i todo =>
    obtain ⟨hnd, hlo, hhi⟩ := hp
    refine ⟨_, rfl, fun r => ⟨?_, ?_⟩⟩
    · refine promiseAll_continues h hnd (stagesBefore i) (DefaultProcess.spoken data) (fun _ => rfl) ?_ (fun _ => rfl) r
      rw [← stagesBefore_succ hlo]
      split
      · rfl
      · obtain rfl : i = stages := by omega
        rfl
    · refine promiseAll_once h hnd DefaultProcess.Once (fun _ hl => ⟨hl, hlo, hhi⟩) ?_ (fun _ => trivial) r
      split
      · rename_i hlt
        exact ⟨by omega, hlt⟩
      · trivial
  | returned | threw => cases h
  | markActive =>
    cases h
    refine ⟨_, rfl, fun r => ?_⟩
    cases r with
    | error e => exact ⟨threw _ e, trivial⟩
    | ok v => exact ⟨Or.inr rfl, Nat.le_refl 1, Nat.le_add_left 1 4⟩
  | stage i =>
    cases h
    refine ⟨_, rfl, fun r => ?_⟩
    cases r with
    | error e => exact ⟨threw _ e, trivial⟩
    | ok v => exact ⟨Or.inr rfl, all_nodup, hp⟩
  | complete | publishCompleted =>
    cases h
    refine ⟨_, rfl, fun r => ?_⟩
    cases r with
    | error e => exact ⟨threw _ e, trivial⟩
    | ok v => exact ⟨Or.inr rfl, trivial⟩

/-! ## Attempts -/

/-- The events an attempt has published at a point, unless it threw. -/
def Attempt.spoken (data : JobPayload) : Attempt → Option (List JobEvent)
  | .compress p | .convert p => p.spoken
  | .default p => p.spoken data

def Attempt.Once : Attempt → Prop
  | .compress p | .convert p => p.Once
  | .default p => p.Once

theorem start_once (data : JobPayload) : (Attempt.start data).Once ∧ (Attempt.start data).spoken data = some [] := by
  unfold Attempt.start
  split
  · exact ⟨trivial, rfl⟩
  · split <;> exact ⟨trivial, rfl⟩

theorem attempt_continues {data : JobPayload} {pick : Nat} {p : Attempt} {aw : Await (Attempt × List Report)}
    (h : p.next data pick = some aw) (hp : p.Once) :
    ∃ l, p.spoken data = some l ∧ ∀ r, Continues l aw.call r ((aw.resume r).1.spoken data) ∧ (aw.resume r).1.Once := by
  cases p with
  | compress p | convert p =>
    obtain ⟨aw, haw, rfl⟩ := Option.map_eq_some_iff.1 h
    exact imageProcess_continues haw hp
  | default p =>
    obtain ⟨aw, haw, rfl⟩ := Option.map_eq_some_iff.1 h
    exact defaultProcess_continues haw hp

/-- What an image processor has said is part of its script. -/
theorem imageProcess_script {data : JobPayload} {p : ImageProcess} {l : List JobEvent} (hi : Implemented data.type)
    (h : p.spoken = some l) : ∃ output, l <+: script data output := by
  cases p with
  | threw => cases h
  | returned output =>
    cases h
    refine ⟨some output, ?_⟩
    rw [script, if_pos hi]
    exact List.prefix_refl _
  | report33 f todo | report66 f n todo =>
    cases h
    refine ⟨none, ?_⟩
    rw [script, if_pos hi, reported]
    split <;> exact ⟨_, rfl⟩
  | _ =>
    cases h
    refine ⟨none, ?_⟩
    rw [script, if_pos hi]
    exact ⟨_, rfl⟩

/-- The reports before a stage are the first of all stages. -/
theorem stagesBefore_initial {i : Nat} (h : 1 ≤ i ∧ i ≤ stages + 1) : stagesBefore i <+: stagesBefore (stages + 1) := by
  unfold stages at h ⊢
  have hcases : i = 1 ∨ i = 2 ∨ i = 3 ∨ i = 4 ∨ i = 5 ∨ i = 6 := by omega
  rcases hcases with rfl | rfl | rfl | rfl | rfl | rfl <;> decide

/-- The script of a job that goes to the default processor. -/
theorem script_default {data : JobPayload} (hi : ¬ Implemented data.type) :
    script data none = stagesBefore (stages + 1) ++ [.completed data.fileId] := by
  rw [script, if_neg hi]
  rfl

/-- What the default processor has said is part of its script. -/
theorem defaultProcess_script {data : JobPayload} {p : DefaultProcess} {l : List JobEvent} (hi : ¬ Implemented data.type)
    (hp : p.Once) (h : p.spoken data = some l) : ∃ output, l <+: script data output := by
  refine ⟨none, ?_⟩
  rw [script_default hi]
  have hbefore {i : Nat} (hi : 1 ≤ i ∧ i ≤ stages + 1) : stagesBefore i <+: stagesBefore (stages + 1) ++ [.completed data.fileId] :=
    (stagesBefore_initial hi).trans (List.prefix_append _ _)
  cases p with
  | threw => cases h
  | markActive =>
    cases h
    exact List.nil_prefix
  | stage i =>
    cases h
    exact hbefore ⟨hp.1, Nat.le_succ_of_le hp.2⟩
  | report i todo =>
    obtain ⟨-, hlo, hhi⟩ := hp
    cases h
    unfold reported
    split
    · rw [List.append_nil]
      exact hbefore ⟨hlo, Nat.le_succ_of_le hhi⟩
    · rw [← stagesBefore_succ hlo]
      exact hbefore ⟨Nat.succ_le_succ (Nat.zero_le i), Nat.succ_le_succ hhi⟩
  | complete | publishCompleted =>
    cases h
    exact List.prefix_append _ _
  | returned =>
    cases h
    exact List.prefix_refl _

/-- What an attempt has said is part of its script. -/
theorem spoken_script {data : JobPayload} {p : Attempt} {l : List JobEvent} (hf : p.Fits data) (hp : p.Once)
    (h : p.spoken data = some l) : ∃ output, l <+: script data output := by
  cases p with
  | compress p | convert p => exact imageProcess_script hf h
  | default p => exact defaultProcess_script hf.1 hp h

/-- An attempt that returned has said its script. -/
theorem spoken_returned {data : JobPayload} {p : Attempt} {output : Option FileRow} (hf : p.Fits data) (h : p.stage data = .returned output) :
    p.spoken data = some (script data output) := by
  cases p with
  | compress p | convert p =>
    have hi : Implemented data.type := hf
    cases p <;> cases h
    rw [script, if_pos hi]
    rfl
  | default p =>
    cases p <;> cases h
    rw [script_default hf.1]
    rfl

/-! ## The messages of a run -/

/-- What a call publishes when it is executed. -/
theorem published_tells {data : JobPayload} {g : Stage} {α : Type} {c : Call α} (h : StageCall data g c.effect) (ch : Choice) (w : World) :
    (c.exec ch w).2.published = w.published ++ (tells c (c.exec ch w).1).map (Message.mk data.jobId) := by
  rw [exec_world]
  rcases published_apply ch w c.effect with hp | ⟨m, he, hp⟩
  · have hnone : tells c (c.exec ch w).1 = [] := by
      unfold tells
      split
      · rename_i m _ he _
        rw [he] at hp
        exact absurd (congrArg List.length hp) (by simp [Effect.apply])
      · rfl
    rw [hp, hnone, List.map_nil, List.append_nil]
  · obtain ⟨v, hv⟩ := exec_publish he ch w
    have htold : tells c (c.exec ch w).1 = [m.event] := by
      rw [hv]
      unfold tells
      rw [he]
    have hid : m.jobId = data.jobId := by
      rw [he] at h
      cases h <;> rfl
    rw [hp, htold, List.map_singleton, ← hid]

/-- What a step of a task adds to its messages. -/
theorem said_actor (hs : (platform cfg).step s a = some s') {i : Nat} (ha : a.actor = some i) :
    said cfg i ((s, a) :: past) = said cfg i past ++ s'.world.published.drop s.world.published.length := by
  have hs' : System.step cfg s a = some s' := hs
  rw [said, if_pos ha, hs']

/-- What a call of an attempt adds to its messages. -/
theorem said_acts (hs : (platform cfg).step s a = some s') {i k pick : Nat} {data : JobPayload} {p : Attempt}
    {b : Bool} {aw : Await (Attempt × List Report)} {r : Except Err aw.α} (ht : s.tasks[i]? = some (.attempt k data p b))
    (hn : p.next data pick = some aw) (hr : Settles s i pick a aw.call r) :
    said cfg i ((s, a) :: past) = said cfg i past ++ (tells aw.call r).map (Message.mk data.jobId) := by
  have h := step_cases hs
  have hexec {ch : Choice} (ha : a = .exec i pick ch) :
      s'.world.published.drop s.world.published.length = (tells aw.call (aw.call.exec ch s.world).1).map (Message.mk data.jobId) := by
    subst ha
    obtain ⟨aw', hn', hworld, -⟩ := attempt_acts h ht
    cases hn.symm.trans hn'
    rw [hworld, published_tells (attempt_stage hn).1, List.drop_left]
  rw [said_actor hs (by cases hr <;> rfl)]
  congr 1
  cases r with
  | error e =>
    rcases hr.of_error with rfl | ⟨ch, rfl, hx⟩
    · rw [world_of_reject h, tells_error]
      exact List.drop_length
    · rw [hexec rfl, hx]
  | ok v =>
    obtain ⟨ch, rfl, hx⟩ := hr.of_ok
    rw [hexec rfl, hx]

/-- A task that waits says nothing. -/
theorem said_waits {i : Nat} (ha : a.actor ≠ some i) : said cfg i ((s, a) :: past) = said cfg i past := by
  rw [said, if_neg ha, List.append_nil]

/-- An attempt that is settled says nothing more. -/
theorem said_settled {i : Nat} (hs : (platform cfg).step s (.settle i) = some s') :
    said cfg i ((s, .settle i) :: past) = said cfg i past := by
  rw [said_actor hs rfl]
  cases step_cases hs with
  | settle => rw [System.resume, List.drop_length, List.append_nil]

/-- The place of a task that acts is one of the pool. -/
theorem actor_lt (h : Stepped cfg s a s') {i : Nat} (ha : a.actor = some i) : i < s.tasks.length := by
  cases h with
  | exec ht | reject ht | settle ht =>
    cases ha
    exact (List.getElem?_eq_some_iff.1 ht).1
  | _ => cases ha

/-- The pool never shrinks. -/
theorem tasks_grow (h : Stepped cfg s a s') : s.tasks.length ≤ s'.tasks.length := by
  by_contra hlt
  have hget : s.tasks[s'.tasks.length]? = some s.tasks[s'.tasks.length] := List.getElem?_eq_getElem (by omega)
  obtain ⟨t', ht', -⟩ := task_forward h hget
  exact absurd (List.getElem?_eq_some_iff.1 ht').1 (Nat.lt_irrefl _)

/-- What the attempts of a state have said on the way to it. -/
structure Scripted (cfg : Config) (s : System) (past : List (System × Action)) : Prop where
  fresh : ∀ i, s.tasks.length ≤ i → said cfg i past = []
  once : ∀ (i k : Nat) data p b, s.tasks[i]? = some (.attempt k data p b) → p.Once
  spoken : ∀ (i k : Nat) data p b l, s.tasks[i]? = some (.attempt k data p b) → p.spoken data = some l →
    said cfg i past = l.map (Message.mk data.jobId)
  part : ∀ (i k : Nat) data p b, s.tasks[i]? = some (.attempt k data p b) →
    ∃ output, said cfg i past <+: (script data output).map (Message.mk data.jobId)

theorem scripted_step (hr : (platform cfg).Reach ok s) (hs : (platform cfg).step s a = some s') (hI : Scripted cfg s past) :
    Scripted cfg s' ((s, a) :: past) := by
  have h := step_cases hs
  have hr' : (platform cfg).Reach Lts.Free s' := (hr.mono (fun _ _ _ => trivial)).step a trivial hs
  have honce (i k : Nat) (data : JobPayload) (p : Attempt) (b : Bool) (hi : s'.tasks[i]? = some (.attempt k data p b)) : p.Once := by
    rcases task_back h hi with ⟨t, ht, hm⟩ | ⟨-, hsp⟩
    · cases hm with
      | waits | settled => exact hI.once i k data p _ ht
      | @attempt _ _ p₀ _ _ aw r pick hn _ he =>
        obtain ⟨l, -, hcont⟩ := attempt_continues hn (hI.once i k data p₀ b ht)
        exact he ▸ (hcont r).2
    · cases hsp with
      | attempt _ _ _ _ hp => exact hp ▸ (start_once data).1
  have hspoken (i k : Nat) (data : JobPayload) (p : Attempt) (b : Bool) (l : List JobEvent)
      (hi : s'.tasks[i]? = some (.attempt k data p b)) (hl : p.spoken data = some l) :
      said cfg i ((s, a) :: past) = l.map (Message.mk data.jobId) := by
    rcases task_back h hi with ⟨t, ht, hm⟩ | ⟨hle, hsp⟩
    · cases hm with
      | waits _ hw => rw [said_waits hw, hI.spoken i k data p b l ht hl]
      | settled _ ha =>
        subst ha
        rw [said_settled hs, hI.spoken i k data p _ l ht hl]
      | @attempt _ _ p₀ _ _ aw r pick hn hset he =>
        subst he
        obtain ⟨l₀, hl₀, hcont⟩ := attempt_continues hn (hI.once i k data p₀ b ht)
        rw [said_acts hs ht hn hset, hI.spoken i k data p₀ b l₀ ht hl₀, ← List.map_append]
        rcases (hcont r).1 with ⟨hnone, -⟩ | hsome
        · cases hnone.symm.trans hl
        · cases hsome.symm.trans hl
          rfl
    · cases hsp with
      | attempt ha _ _ _ hp =>
        subst hp ha
        cases (start_once data).2.symm.trans hl
        have hw : (Action.deliver k).actor ≠ some i := nofun
        rw [said_waits hw, hI.fresh i hle]
        rfl
  refine
    { fresh := fun i hle => ?_
      once := honce
      spoken := hspoken
      part := fun i k data p b hi => ?_ }
  · have hlen : s.tasks.length ≤ i := Nat.le_trans (tasks_grow h) hle
    rw [said_waits (fun ha => absurd (actor_lt h ha) (Nat.not_lt.2 hlen)), hI.fresh i hlen]
  · cases hl : p.spoken data with
    | some l =>
      obtain ⟨output, hpre⟩ := spoken_script ((begun hr').fits i k data p b hi) (honce i k data p b hi) hl
      exact ⟨output, hspoken i k data p b l hi hl ▸ hpre.map _⟩
    | none =>
      rcases task_back h hi with ⟨t, ht, hm⟩ | ⟨-, hsp⟩
      · cases hm with
        | waits _ hw =>
          rw [said_waits hw]
          exact hI.part i k data p b ht
        | settled _ ha =>
          subst ha
          rw [said_settled hs]
          exact hI.part i k data p _ ht
        | @attempt _ _ p₀ _ _ aw r pick hn hset he =>
          subst he
          obtain ⟨l₀, hl₀, hcont⟩ := attempt_continues hn (hI.once i k data p₀ b ht)
          rcases (hcont r).1 with ⟨-, hquiet⟩ | hsome
          · rw [said_acts hs ht hn hset, hquiet, List.map_nil, List.append_nil]
            exact hI.part i k data p₀ b ht
          · cases hsome.symm.trans hl
      · cases hsp with
        | attempt _ _ _ _ hp =>
          subst hp
          cases (start_once data).2.symm.trans hl

/-! ## The result -/

theorem events_scripted (cfg : Config) : EventsScripted cfg := by
  intro s past hr i k data p b hi
  have hI : Scripted cfg s past := by
    refine hr.invariant_past (I := Scripted cfg) ?_ (fun s past a s' hr hI _ hs => scripted_step hr.of_past hs hI)
    rintro s rfl
    exact ⟨fun _ _ => rfl, fun _ _ _ _ _ hi => (nomatch hi), fun _ _ _ _ _ _ hi => (nomatch hi), fun _ _ _ _ _ hi => (nomatch hi)⟩
  refine ⟨hI.part i k data p b hi, fun output hst => ?_⟩
  exact hI.spoken i k data p b _ hi (spoken_returned ((begun hr.of_past).fits i k data p b hi) hst)

end FileProcessing
