import FileProcessing.Lemmas.Announcements
import FileProcessing.Lemmas.Reports

/-!
# The failure of a job as its last message

`job:failed` is documented as emitted once, after the retries are exhausted. The listener that publishes it runs after every failed
attempt and does not look at how many are left, so a job can fail, make progress again and complete. The message is the last of
its job in the runs where a listener publishes only when BullMQ has given the job up and nothing else of the job is left that could
still publish.
-/

namespace FileProcessing

variable {cfg : Config} {ok : System → Action → Prop} {s s' : System} {a : Action} {jobId : Uuid}

/-- BullMQ has given the job up: its last attempt has failed. -/
def GivenUp (s : System) (jobId : Uuid) : Prop :=
  ∃ (k : Nat) (job : BullJob), s.world.queue[k]? = some job ∧ job.payload.jobId = jobId ∧ job.state = .failed

/-- `job:failed` of a job is published once BullMQ has given the job up, and after it no other message of the job: not a second
failure, no progress and no completion. -/
def FailuresFinal (cfg : Config) (ok : System → Action → Prop) : Prop :=
  ∀ s a s' jobId error, (platform cfg).Reach ok s → ok s a → (platform cfg).step s a = some s' →
    s'.world.published = s.world.published ++ [⟨jobId, .failed error⟩] →
    GivenUp s' jobId ∧ ∀ s'', (platform cfg).Steps ok s' s'' →
      ∃ later, s''.world.published = s'.world.published ++ later ∧ ∀ m ∈ later, m.jobId ≠ jobId

/-- The task can still publish a message of the job: it owes one, or it is a report to the channel. -/
def Speaks (jobId : Uuid) (t : Task) : Prop :=
  Owes jobId t ∨ ∃ r, t = .report r false ∧ r.jobId = jobId ∧ r.target = .channel

/-- The condition on a step: a listener publishes the failure of its job when BullMQ has given the job up and no other task can
still publish a message of it. -/
def FailureLast (s : System) (a : Action) : Prop :=
  ∀ i pick ch jobId m, a = .exec i pick ch → s.tasks[i]? = some (.failedListener jobId m .publish) →
    GivenUp s jobId ∧ ∀ l t, l ≠ i → s.tasks[l]? = some t → ¬ Speaks jobId t

/-! ## Who can still speak -/

/-- An attempt that makes a call is not settled and has not returned. -/
theorem owes_of_next (hr : (platform cfg).Reach ok s) {i k pick : Nat} {data : JobPayload} {p : Attempt} {b : Bool}
    {aw : Await (Attempt × List Report)} (ht : s.tasks[i]? = some (.attempt k data p b)) (hn : p.next data pick = some aw) :
    Owes data.jobId (.attempt k data p b) := by
  have hout : p.outcome = none := by
    cases ho : p.outcome with
    | none => rfl
    | some o =>
      rw [next_of_outcome pick ho] at hn
      cases hn
  cases b with
  | true =>
    obtain ⟨o, ho⟩ := settledEnded hr i k data p ht
    rw [hout] at ho
    cases ho
  | false =>
    refine .attempt k rfl ?_
    rw [hout]
    intro h
    cases h

/-- A task that publishes a message of a job can still do so. -/
theorem speaks_of_publish (hr : (platform cfg).Reach ok s) {i pick : Nat} {t : Task} {aw : Await (Task × List Task)} {m : Message}
    (ht : s.tasks[i]? = some t) (hn : t.next cfg pick = some aw) (he : aw.call.effect = .publish m) : Speaks m.jobId t := by
  rcases publisher hn he with hl | ⟨k, data, p, b, n, rfl, -, rfl⟩
  · generalize m.jobId = j at hl
    generalize m.event.status = st at hl
    cases hl with
    | completed k b hg =>
      obtain ⟨aw, haw, -⟩ := Option.map_eq_some_iff.1 hn
      exact Or.inl (owes_of_next hr ht haw)
    | failed j text =>
      refine Or.inl (.listener text ?_)
      intro h
      cases h
    | progress hc => exact Or.inr ⟨_, rfl, rfl, hc⟩
  · obtain ⟨aw, haw, -⟩ := Option.map_eq_some_iff.1 hn
    exact Or.inl (owes_of_next hr ht haw)

/-- The job is over: BullMQ has given it up, and no task can still publish a message of it. -/
structure Mute (s : System) (jobId : Uuid) : Prop where
  givenUp : GivenUp s jobId
  silent : ∀ (l : Nat) t, s.tasks[l]? = some t → ¬ Speaks jobId t

/-- A job that is given up stays so. -/
theorem givenUp_step (h : Stepped cfg s a s') (hg : GivenUp s jobId) : GivenUp s' jobId := by
  obtain ⟨k, job, hk, hj, hst⟩ := hg
  obtain ⟨job', hk', hm⟩ := entry_forward h hk
  cases hm with
  | stays => exact ⟨k, job, hk', hj, hst⟩
  | delivered _ hw =>
    rw [hst] at hw
    cases hw
  | stalled _ hl | finished _ _ _ hl | retries _ _ _ hl | gaveUp _ _ _ hl =>
    rw [hst] at hl
    cases hl

/-- A call of `create` that is about to enqueue a job is not one of a job that has an entry. -/
theorem not_adds_of_givenUp (hr : (platform cfg).Reach ok s) (hg : GivenUp s jobId) {i : Nat} {u f : Uuid} {ty : String}
    {o : Option JobOptions} {row : JobRow} (ht : s.tasks[i]? = some (.createJob u f ty o (.add row))) : row.id ≠ jobId := by
  obtain ⟨k, job, hk, hj, -⟩ := hg
  exact fun he => (oneEntry hr).fresh ht hk (hj.trans he.symm)

/-- A task that can still speak of a job that is given up could before the step, or comes from one that could. -/
theorem speaks_back (hr : (platform cfg).Reach ok s) (hr' : (platform cfg).Reach ok s') (h : Stepped cfg s a s')
    (hg : GivenUp s jobId) {l : Nat} {t' : Task} (hl : s'.tasks[l]? = some t') (hs : Speaks jobId t') :
    ∃ (i : Nat) (t : Task), s.tasks[i]? = some t ∧ Speaks jobId t := by
  rcases hs with ho | ⟨r, rfl, hj, hc⟩
  · cases ho with
    | adds u f ty o he => exact absurd he (not_adds_of_givenUp hr' (givenUp_step h hg) hl)
    | @attempt k data p hd hp =>
      rcases task_back h hl with ⟨t, ht, hm⟩ | ⟨-, hsp⟩
      · cases hm with
        | waits => exact ⟨l, _, ht, Or.inl (.attempt k hd hp)⟩
        | attempt hn => exact ⟨l, _, ht, Or.inl (hd ▸ owes_of_next hr ht hn)⟩
      · cases hsp with
        | @attempt _ _ _ job ha hk hw hdata hpl =>
          obtain ⟨k₀, job₀, hk₀, hj₀, hst₀⟩ := hg
          have hkk : k = k₀ := (oneEntry hr).entries hk hk₀ (by rw [← hdata, hd, hj₀])
          subst hkk
          rw [hk] at hk₀
          cases hk₀
          rw [hw] at hst₀
          cases hst₀
    | listener m hp =>
      rcases task_back h hl with ⟨t, ht, hm⟩ | ⟨-, hsp⟩
      · cases hm with
        | waits => exact ⟨l, _, ht, Or.inl (.listener m hp)⟩
        | @failedListener _ _ p₀ _ aw r pick hn hset he =>
          refine ⟨l, _, ht, Or.inl (.listener m ?_)⟩
          rintro rfl
          cases hn
      · cases hsp with
        | @failedListener i k data p e _ _ ha ht ho hj _ =>
          refine ⟨i, _, ht, Or.inl (hj ▸ .attempt k rfl ?_)⟩
          rw [ho]
          intro he
          cases he
  · rcases report_back h hl with hold | ⟨i, k, data, p, b, pick, aw, res, ht, hn, hmem⟩
    · exact ⟨l, _, hold, Or.inr ⟨r, rfl, hj, hc⟩⟩
    · obtain ⟨hd, -⟩ := attempt_leaves hn ((reportsBounded hr).attempts i k data p b ht) hmem
      exact ⟨i, _, ht, Or.inl (hj ▸ hd ▸ owes_of_next hr ht hn)⟩

/-- A job that is over stays so. -/
theorem mute_step (hr : (platform cfg).Reach ok s) (hr' : (platform cfg).Reach ok s') (h : Stepped cfg s a s') (hm : Mute s jobId) :
    Mute s' jobId where
  givenUp := givenUp_step h hm.givenUp
  silent l t' hl hs := by
    obtain ⟨i, t, ht, hst⟩ := speaks_back hr hr' h hm.givenUp hl hs
    exact hm.silent i t ht hst

/-- No message of a job that is over is published. -/
theorem mute_publishes (hr : (platform cfg).Reach ok s) (h : Stepped cfg s a s') (hm : Mute s jobId) :
    ∃ later, s'.world.published = s.world.published ++ later ∧ ∀ m ∈ later, m.jobId ≠ jobId := by
  rcases published_step hr h with hp | ⟨i, pick, ch, t, m, ha, ht, hp, -⟩
  · exact ⟨[], by rw [hp, List.append_nil], fun m hm => nomatch hm⟩
  · refine ⟨[m], hp, fun m' hm' hj => ?_⟩
    obtain rfl := List.mem_singleton.1 hm'
    obtain ⟨i, pick, ch, t, aw, -, ht, hn, he, -⟩ := published_exec h hp
    exact hm.silent i t ht (hj ▸ speaks_of_publish hr ht hn he)

/-- Nor in any run from there. -/
theorem mute_steps (hr : (platform cfg).Reach ok s) (hs : (platform cfg).Steps ok s s') (hm : Mute s jobId) :
    ∃ later, s'.world.published = s.world.published ++ later ∧ ∀ m ∈ later, m.jobId ≠ jobId := by
  refine (hs.preserves (fun s' => Mute s' jobId ∧ ∃ later, s'.world.published = s.world.published ++ later ∧
    ∀ m ∈ later, m.jobId ≠ jobId) hr ⟨hm, [], (List.append_nil _).symm, fun m hm => nomatch hm⟩ ?_).2
  rintro s₁ a s₂ hr₁ ⟨hm₁, l₁, h₁, hl₁⟩ hok hst
  obtain ⟨l₂, h₂, hl₂⟩ := mute_publishes hr₁ (step_cases hst) hm₁
  refine ⟨mute_step hr₁ (hr₁.step a hok hst) (step_cases hst) hm₁, l₁ ++ l₂, by rw [h₂, h₁, List.append_assoc], ?_⟩
  intro m hmem
  rcases List.mem_append.1 hmem with hmem | hmem
  · exact hl₁ m hmem
  · exact hl₂ m hmem

/-! ## The result -/

/-- A failure is published by a listener, which is done then. -/
theorem failure_publisher {i pick : Nat} {ch : Choice} {t : Task} {aw : Await (Task × List Task)} {error : String}
    (h : Stepped cfg s (.exec i pick ch) s') (ht : s.tasks[i]? = some t) (hn : t.next cfg pick = some aw)
    (he : aw.call.effect = .publish ⟨jobId, .failed error⟩) :
    t = .failedListener jobId error .publish ∧ s'.tasks = s.tasks.set i (.failedListener jobId error .done) := by
  have hw := writes_of_next hn
  rw [he] at hw
  cases hw with
  | attempt k data p b _ hc =>
    generalize p.stage data = g at hc
    cases hc
  | listenerPublish =>
    refine ⟨rfl, ?_⟩
    cases h with
    | exec ht' hn' =>
      rw [ht] at ht'
      cases ht'
      cases hn'
      exact List.append_nil _

/-- A published failure is the last message of its job in every run whose steps meet the condition. -/
theorem failures_final (cfg : Config) : FailuresFinal cfg FailureLast := by
  intro s a s' jobId error hr hok hs hp
  obtain ⟨i, pick, ch, t, aw, rfl, ht, hn, he, hworld⟩ := published_exec (step_cases hs) hp
  obtain ⟨rfl, htasks⟩ := failure_publisher (step_cases hs) ht hn he
  obtain ⟨hg, hsilent⟩ := hok i pick ch jobId error rfl ht
  have hmute : Mute s' jobId := by
    refine ⟨givenUp_step (step_cases hs) hg, fun l t' hl hsp => ?_⟩
    rw [htasks] at hl
    by_cases hli : l = i
    · subst hli
      rw [List.getElem?_set_self (List.getElem?_eq_some_iff.1 ht).1, Option.some.injEq] at hl
      subst hl
      rcases hsp with ho | ⟨r, hr, -⟩
      · cases ho with
        | listener _ hp => exact hp rfl
      · cases hr
    · rw [List.getElem?_set_ne (Ne.symm hli)] at hl
      exact hsilent l t' hli hl hsp
  refine ⟨hmute.givenUp, fun s'' hs'' => ?_⟩
  exact mute_steps (hr.step _ hok hs) hs'' hmute

/-- A compression whose first attempt fails at its second call, up to the publish of its listener. -/
def firstFailure : List Action :=
  Trace.upload ++ Trace.job ++ [.deliver 0, Trace.call 3 0, Trace.drop 3, .settle 3, Trace.call 4 0]

/-- A published failure is not the last message of its job in every run: it is published after the first attempt, when BullMQ has two
more to make. -/
theorem failure_not_final : ¬ FailuresFinal Config.default Lts.Free := by
  intro h
  have hrun : ((platform Config.default).run System.empty firstFailure).any (fun s =>
      ((platform Config.default).step s (Trace.call 4 0)).any (fun s' =>
        s'.world.published = s.world.published ++ [⟨Trace.uuid 20, .failed "ECONNRESET"⟩] &&
          s'.world.queue.all (fun job => job.state = .waiting))) = true := by
    decide +kernel
  obtain ⟨s, hs, hp⟩ := Trace.reach hrun
  obtain ⟨s', hs', hp'⟩ := (Option.any_eq_true _ _).1 hp
  rw [Bool.and_eq_true, decide_eq_true_eq, List.all_eq_true] at hp'
  obtain ⟨⟨k, job, hk, -, hst⟩, -⟩ := h s _ s' _ _ hs trivial hs' hp'.1
  have hw := of_decide_eq_true (hp'.2 job (List.mem_of_getElem? hk))
  rw [hst] at hw
  cases hw

end FileProcessing
