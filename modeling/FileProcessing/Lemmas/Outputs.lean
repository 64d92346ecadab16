import FileProcessing.Lemmas.Locks
import FileProcessing.Lemmas.Paths

/-!
# The outputs of the jobs

`OutputOnce` is the condition under which an attempt that has inserted its output is not followed by another. In the runs that
meet it every path of a row is known: an upload's UUID is used up, or the job has its output. A row that is inserted is always
under a path that was not known, so no two rows share one.
-/

namespace FileProcessing

variable {cfg : Config} {ok : System → Action → Prop} {s s' : System} {a : Action}

/-- The attempt has inserted the row of its output, and has not failed. -/
def HasOutput : Stage → Prop
  | .completing (some _) | .announcing (some _) | .returned (some _) => True
  | _ => False

/-- The attempt has inserted the row of its output, or it is the last and has thrown: no attempt of the entry follows it. -/
def NoneFollows (job : BullJob) (g : Stage) : Prop := HasOutput g ∨ (∃ e, g = .threw e) ∧ LastAttempt job

/-- The conditions on a step: an attempt that inserts its output holds its lock; once it has inserted it, and unless it is the last,
none of its calls is rejected, and that output stands when the row of the job is completed with it; and the lock is not taken from
an attempt that none is to follow. -/
structure OutputOnce (s : System) (a : Action) : Prop where
  inserted : ∀ i pick ch k data p b file, a = .exec i pick ch → s.tasks[i]? = some (.attempt k data p b) →
    p.stage data = .storing file → HoldsLock s i k
  kept : ∀ i pick e k data p b job, a = .reject i pick e → s.tasks[i]? = some (.attempt k data p b) → HasOutput (p.stage data) →
    s.world.queue[k]? = some job → LastAttempt job
  standing : ∀ i pick ch k data p b o job, a = .exec i pick ch → s.tasks[i]? = some (.attempt k data p b) →
    p.stage data = .completing (some o) → s.world.queue[k]? = some job → (∃ row ∈ s.world.db.jobs, row.id = data.jobId) →
    (∃ file ∈ s.world.db.files, file.id = o.id) ∨ LastAttempt job
  locked : ∀ k, a = .stall k → ¬ Past NoneFollows s k

/-- The job has its output, or BullMQ has done with it: nothing inserts another. -/
def Made (s : System) (jobId : Uuid) : Prop :=
  ∃ (k : Nat) (job : BullJob), s.world.queue[k]? = some job ∧ job.payload.jobId = jobId ∧ Past NoneFollows s k

/-- An attempt that has its output fails only when it is the last. -/
theorem last_of_fails (hok : OutputOnce s a) {i k : Nat} {job : BullJob} {data : JobPayload} {p : Attempt} {b : Bool}
    (hk : s.world.queue[k]? = some job) (ht : s.tasks[i]? = some (.attempt k data p b)) (hg : HasOutput (p.stage data))
    (hf : CallFails s a i data p) : LastAttempt job := by
  obtain ⟨pick, aw, e, hn, hr⟩ := hf
  rcases hr.of_error with rfl | ⟨ch, rfl, he⟩
  · exact hok.kept i pick e k data p b job rfl ht hg hk
  · have hc := (attempt_stage hn).1
    generalize hst : p.stage data = g at hc hg
    generalize hf : aw.call.effect = f at hc
    cases hc with
    | announce o =>
      obtain ⟨v, hv⟩ := exec_publish hf ch s.world
      rw [hv] at he
      cases he
    | complete o extra hx =>
      cases o with
      | none => exact hg.elim
      | some o =>
        by_contra hlast
        have hex (hrow : ∃ row ∈ s.world.db.jobs, row.id = data.jobId) : JobRepository.outputExists s.world.db extra = true := by
          rcases hok.standing i pick ch k data p b o job rfl ht hst hk hrow with ⟨file, hfile, hid⟩ | hl
          · simp only [JobRepository.outputExists, hx, Option.map_some, List.any_eq_true, decide_eq_true_eq]
            exact ⟨file, hfile, hid⟩
          · exact absurd hl hlast
        obtain ⟨v, hv⟩ := exec_updateStatus hf ch hex
        rw [hv] at he
        cases he
    | start | idle | progress | publish | put | insert => exact hg.elim

/-- What attempts that none follows do keeps them so. -/
theorem noneFollows_next {job : BullJob} {data : JobPayload} {g g' : Stage} {α : Type} {c : Call α} {v : α}
    (h : StageStep data g c (.ok v) g') (hg : NoneFollows job g) : NoneFollows job g' := by
  rcases hg with hg | ⟨⟨e, rfl⟩, -⟩
  · refine Or.inl ?_
    cases h with
    | announced o | completed o => cases o <;> exact hg
    | started | worked | gaveUp | finished | stored | inserted => exact hg.elim
  · cases h

/-- A job that has its output keeps it. -/
theorem made_step (hok : OutputOnce s a) (h : Stepped cfg s a s') {jobId : Uuid} (hm : Made s jobId) : Made s' jobId := by
  obtain ⟨k, job, hk, hj, hp⟩ := hm
  obtain ⟨job', hk', hmv⟩ := entry_forward h hk
  refine ⟨k, job', hk', by rw [hmv.payload, hj], ?_⟩
  refine past_step h noneFollows_next (fun job e hg => ?_) (fun ha => hok.locked k ha hp) (fun hk ht hg hf e => ?_) hp
  · rcases hg with hg | ⟨-, hl⟩
    · exact hg.elim
    · exact hl
  · rcases hg with hg | ⟨-, hl⟩
    · exact Or.inr ⟨⟨e, rfl⟩, last_of_fails hok hk ht hg hf⟩
    · exact Or.inr ⟨⟨e, rfl⟩, hl⟩

/-- The attempt that holds the lock of a job that has its output is one that none follows. -/
theorem noneFollows_of_made (hr : (platform cfg).Reach ok s) {i k : Nat} {data : JobPayload} {p : Attempt} {b : Bool}
    (hm : Made s data.jobId) (hl : HoldsLock s i k) (ht : s.tasks[i]? = some (.attempt k data p b)) :
    ∃ job, NoneFollows job (p.stage data) := by
  obtain ⟨l, job, hk, hj, hp⟩ := hm
  exact ⟨job, stage_of_past hr hp hk hj hl ht⟩

/-- An attempt at its insert has no output yet. -/
theorem not_made_of_storing (hr : (platform cfg).Reach ok s) {i k : Nat} {data : JobPayload} {p : Attempt} {b : Bool}
    {file : NewFile} (hl : HoldsLock s i k) (ht : s.tasks[i]? = some (.attempt k data p b)) (hst : p.stage data = .storing file) :
    ¬ Made s data.jobId := by
  intro hm
  obtain ⟨job, hg | ⟨⟨e, hg⟩, -⟩⟩ := noneFollows_of_made hr hm hl ht
  · rw [hst] at hg
    exact hg
  · rw [hst] at hg
    cases hg

/-- An attempt that inserts the row of its output has it. -/
theorem made_of_insert (hr : (platform cfg).Reach ok s) (hok : OutputOnce s a) (h : Stepped cfg s a s') {i k : Nat}
    {data : JobPayload} {p : Attempt} {ch : Choice} {e : Effect} {file : NewFile} {row : FileRow}
    (hw : Wrote s a i (.attempt k data p false) ch e) (hst : p.stage data = .storing file)
    (hx : ((Call.createFile file).exec ch s.world).1 = .ok row) : Made s' data.jobId := by
  obtain ⟨pick, rfl⟩ := hw.action
  obtain ⟨job, hk, rfl⟩ := (locked hr).entry hw.task
  obtain ⟨job', hk', hact⟩ := hok.inserted i pick ch k _ p false file rfl hw.task hst
  rw [hk] at hk'
  cases hk'
  obtain ⟨job', hk', hm⟩ := entry_forward h hk
  refine ⟨k, job', hk', by rw [hm.payload], job', hk', Or.inr (Or.inr ?_)⟩
  obtain ⟨aw, hn, -, htask⟩ := attempt_acts h hw.task
  obtain ⟨hcall, hstep⟩ := attempt_stage hn
  have hstep := hstep (aw.call.exec ch s.world).1
  rw [hst] at hstep hcall
  have hout : HasOutput ((aw.resume (aw.call.exec ch s.world).1).1.stage job.payload) := by
    rcases StageStep.of_storing hcall hstep with ⟨e, he, -⟩ | ⟨row, -, hg⟩
    · rw [hx] at he
      cases he
    · rw [hg]
      trivial
  cases hm with
  | stays => exact ⟨i, _, hact, htask, Or.inl hout⟩
  | delivered ha | stalled ha | finished ha | retries ha | gaveUp ha => cases ha

/-! ## Known paths -/

/-- The path is an upload's whose UUID is used up, or an output's of a job that has its output. -/
def Known (s : System) (path : String) : Prop :=
  (∃ random, IsUploadKey path random ∧ Consumed s random) ∨ ∃ jobId, IsOutputKey path jobId ∧ Made s jobId

/-- A known path stays known. -/
theorem known_step (hok : OutputOnce s a) (h : Stepped cfg s a s') {path : String} (hk : Known s path) : Known s' path := by
  rcases hk with ⟨r, hkey, hc⟩ | ⟨j, hkey, hm⟩
  · exact Or.inl ⟨r, hkey, consumed_step h hc⟩
  · exact Or.inr ⟨j, hkey, made_step hok h hm⟩

/-- The paths are the same, or of outputs of the same job. -/
def SamePlace (path path' : String) : Prop := path = path' ∨ ∃ jobId, IsOutputKey path jobId ∧ IsOutputKey path' jobId

theorem SamePlace.symm {path path' : String} (h : SamePlace path path') : SamePlace path' path := by
  rcases h with h | ⟨j, hj, hj'⟩
  · exact Or.inl h.symm
  · exact Or.inr ⟨j, hj', hj⟩

/-- What is known of a path is known of every path in the same place. -/
theorem Known.of_same {path path' : String} (hk : Known s path) (h : SamePlace path path') : Known s path' := by
  rcases h with rfl | ⟨j, hj, hj'⟩
  · exact hk
  · rcases hk with ⟨r, hup, -⟩ | ⟨j₀, hj₀, hm⟩
    · exact absurd hj hup.not_output
    · exact Or.inr ⟨j, hj', hj₀.inj hj ▸ hm⟩

/-- A row is inserted under a path that was not known, and that is known from then on. -/
theorem known_of_insert (hr : (platform cfg).Reach ok s) (hok : OutputOnce s a) (h : Stepped cfg s a s') {x : FileRow}
    (hx : Inserted s s' a x) : Known s' x.storagePath ∧ ¬ Known s x.storagePath := by
  obtain ⟨i, t, ch, data, hw, hexec, rfl, -⟩ := hx
  rcases file_writer hr hw with ⟨u, input, key, rfl, rfl⟩ | ⟨k, data', p, rfl, hst⟩
  · obtain ⟨r, hkey, hc, hno⟩ := upload_inserted hr h hw
    refine ⟨Or.inl ⟨r, hkey, hc⟩, ?_⟩
    rintro (⟨r', hkey', hc'⟩ | ⟨j, hout, -⟩)
    · exact hno (hkey'.inj hkey ▸ hc')
    · exact hkey.not_output hout
  · have hkey := outputKey_of_storing hst
    refine ⟨Or.inr ⟨data'.jobId, hkey, made_of_insert hr hok h hw hst hexec⟩, ?_⟩
    obtain ⟨pick, ha⟩ := hw.action
    rintro (⟨r, hup, -⟩ | ⟨j, hout, hm⟩)
    · exact hup.not_output hkey
    · have hl := hok.inserted i pick ch k data' p false data ha hw.task hst
      exact not_made_of_storing hr hl hw.task hst (hout.inj hkey ▸ hm)

/-- In a run where outputs are created once, every path is known, and rows in the same place are one file. -/
theorem pathsRegistered (h : (platform cfg).Reach OutputOnce s) : Registered Known SamePlace s := by
  refine h.invariant ?_ (fun s a s' hr hI hok hs => ?_)
  · rintro s rfl
    exact ⟨fun hx => absurd hx (not_seen_empty _), fun hx => absurd hx (not_seen_empty _)⟩
  · have hst := step_cases hs
    refine registered_step hst SamePlace.symm (known_step hok hst) (fun hx => ?_) hI
    obtain ⟨hyes, hno⟩ := known_of_insert hr hok hst hx
    exact ⟨hyes, fun hk he => hno (hk.of_same he)⟩

end FileProcessing
