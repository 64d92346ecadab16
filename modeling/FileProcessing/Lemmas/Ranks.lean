import FileProcessing.Lemmas.Attempts
import Mathlib.Data.Prod.Lex

/-!
# The calls a task has left to make

Every step of a task brings it closer to its end. For all tasks but a sweep the calls left are bounded from the start; a sweep
knows how many only once it has read its batch, so the rank of a task is a pair: the reads a sweep has still to make, then the
calls left.
-/

namespace FileProcessing

variable {cfg : Config} {ok : System → Action → Prop} {s s' : System} {a : Action}

/-! ## Ranks -/

def FileService.CreateUploadUrl.left : FileService.CreateUploadUrl → Nat
  | .create _ => 3
  | .expiresAt _ => 2
  | .presign _ _ => 1
  | .returned _ | .threw _ => 0

def FileService.ConfirmUpload.left : FileService.ConfirmUpload → Nat
  | .findById => 3
  | .statObject _ => 2
  | .markReady _ => 1
  | .returned _ | .threw _ => 0

def FileService.Delete.left : FileService.Delete → Nat
  | .findById => 2
  | .softDelete => 1
  | .returned | .threw _ => 0

def JobService.Create.left : JobService.Create → Nat
  | .findFile => 3
  | .create => 2
  | .add _ => 1
  | .returned _ | .threw _ => 0

def JobService.Cancel.left : JobService.Cancel → Nat
  | .findById => 2
  | .cancel => 1
  | .returned | .threw _ => 0

def ImageProcess.left : ImageProcess → Nat
  | .markActive => 16
  | .publishStart => 15
  | .findInput => 14
  | .getObject _ => 13
  | .readStream _ => 12
  | .report33 _ todo => 8 + todo.length
  | .sharp _ => 8
  | .report66 _ _ todo => 4 + todo.length
  | .putObject _ _ => 4
  | .createFile _ _ => 3
  | .complete _ => 2
  | .publishCompleted _ => 1
  | .returned _ | .threw _ => 0

/-- A stage of the loop is a timer and a report. -/
def DefaultProcess.left : DefaultProcess → Nat
  | .markActive => 7 + 4 * stages
  | .stage i => 6 + 4 * (stages - i)
  | .report i todo => 2 + 4 * (stages - i) + todo.length
  | .complete => 2
  | .publishCompleted => 1
  | .returned | .threw _ => 0

def Attempt.left : Attempt → Nat
  | .compress p | .convert p => p.left
  | .default p => p.left

def FailedListener.left : FailedListener → Nat
  | .updateStatus => 2
  | .publish => 1
  | .done => 0

/-- The clock and the batch a sweep has still to read, and the removals left of the batch it has read. -/
def Sweep.left : Sweep → Nat × Nat
  | .cutoff => (2, 0)
  | .find _ => (1, 0)
  | .removeObject _ rest _ => (0, 2 * rest.length + 2)
  | .removeRow _ rest _ => (0, 2 * rest.length + 1)
  | .returned _ | .threw _ => (0, 0)

/-- The rank of a task. -/
def Task.rank : Task → Nat ×ₗ Nat
  | .createUploadUrl _ _ p => toLex (0, p.left)
  | .confirmUpload _ _ p => toLex (0, p.left)
  | .deleteFile _ _ p => toLex (0, p.left)
  | .createJob _ _ _ _ p => toLex (0, p.left)
  | .cancelJob _ _ p => toLex (0, p.left)
  | .attempt _ _ p _ => toLex (0, p.left)
  | .failedListener _ _ p => toLex (0, p.left)
  | .report _ done => toLex (0, if done then 0 else 1)
  | .sweep _ p => toLex p.left

/-- A task that has returned or thrown. -/
def Task.over : Task → Bool
  | .createUploadUrl _ _ p => p.left = 0
  | .confirmUpload _ _ p => p.left = 0
  | .deleteFile _ _ p => p.left = 0
  | .createJob _ _ _ _ p => p.left = 0
  | .cancelJob _ _ p => p.left = 0
  | .attempt _ _ p _ => p.outcome.isSome
  | .failedListener _ _ p => p = .done
  | .report _ done => done
  | .sweep _ p => p.left = (0, 0)

/-! ## A step brings a task closer to its end -/

theorem createUploadUrl_left {u : Uuid} {input : FileService.CreateUploadUrlInput} {p : FileService.CreateUploadUrl}
    {aw : Await FileService.CreateUploadUrl} (h : FileService.createUploadUrl cfg u input p = some aw) (r : Except Err aw.α) :
    (aw.resume r).left < p.left := by
  cases p <;> cases h <;> cases r <;> simp [FileService.CreateUploadUrl.left]

theorem confirmUpload_left {u f : Uuid} {p : FileService.ConfirmUpload} {aw : Await FileService.ConfirmUpload}
    (h : FileService.confirmUpload u f p = some aw) (r : Except Err aw.α) : (aw.resume r).left < p.left := by
  cases p with
  | findById =>
    cases h
    cases r with
    | error e => exact Nat.succ_pos _
    | ok file =>
      cases file with
      | none => exact Nat.succ_pos _
      | some file =>
        dsimp only
        split
        · exact Nat.succ_pos _
        · split <;> simp [FileService.ConfirmUpload.left]
  | statObject file =>
    cases h
    cases r with
    | error e => exact Nat.succ_pos _
    | ok object =>
      dsimp only
      split <;> simp [FileService.ConfirmUpload.left]
  | markReady file =>
    cases h
    cases r with
    | error e => exact Nat.succ_pos _
    | ok updated => cases updated <;> exact Nat.succ_pos _
  | returned | threw => cases h

theorem deleteFile_left {u f : Uuid} {p : FileService.Delete} {aw : Await FileService.Delete}
    (h : FileService.delete u f p = some aw) (r : Except Err aw.α) : (aw.resume r).left < p.left := by
  cases p with
  | findById =>
    cases h
    cases r with
    | error e => exact Nat.succ_pos _
    | ok file =>
      cases file with
      | none => exact Nat.succ_pos _
      | some file =>
        dsimp only
        split <;> simp [FileService.Delete.left]
  | softDelete =>
    cases h
    cases r <;> exact Nat.succ_pos _
  | returned | threw => cases h

theorem createJob_left {u f : Uuid} {ty : String} {o : Option JobOptions} {p : JobService.Create} {aw : Await JobService.Create}
    (h : JobService.create u f ty o p = some aw) (r : Except Err aw.α) : (aw.resume r).left < p.left := by
  cases p with
  | findFile =>
    cases h
    cases r with
    | error e => exact Nat.succ_pos _
    | ok file =>
      cases file with
      | none => exact Nat.succ_pos _
      | some file =>
        dsimp only
        split
        · exact Nat.succ_pos _
        · split <;> simp [JobService.Create.left]
  | create | add =>
    cases h
    cases r <;> simp [JobService.Create.left]
  | returned | threw => cases h

theorem cancelJob_left {u j : Uuid} {p : JobService.Cancel} {aw : Await JobService.Cancel}
    (h : JobService.cancel u j p = some aw) (r : Except Err aw.α) : (aw.resume r).left < p.left := by
  cases p with
  | findById =>
    cases h
    cases r with
    | error e => exact Nat.succ_pos _
    | ok job =>
      cases job with
      | none => exact Nat.succ_pos _
      | some job =>
        dsimp only
        split
        · exact Nat.succ_pos _
        · split <;> simp [JobService.Cancel.left]
  | cancel =>
    cases h
    cases r <;> exact Nat.succ_pos _
  | returned | threw => cases h

/-- Each call of a progress report brings the attempt closer to its end, when what follows the report is closer. -/
theorem promiseAll_left {P : Type} {jobId : Uuid} {n pick base : Nat} {todo : List ReportTarget}
    {pending : List ReportTarget → P} {done : P} {threw : Err → P} {aw : Await (P × List Report)}
    (h : promiseAll jobId n todo pick pending done threw = some aw) (left : P → Nat)
    (hp : ∀ l, left (pending l) = base + l.length) (hd : left done ≤ base) (ht : ∀ e, left (threw e) = 0) (r : Except Err aw.α) :
    left (aw.resume r).1 < base + todo.length := by
  unfold promiseAll at h
  split at h
  · cases h
  rename_i target htarget
  have hpick : pick < todo.length := (List.getElem?_eq_some_iff.1 htarget).1
  cases h
  cases r with
  | error e =>
    dsimp only
    rw [ht]
    omega
  | ok v =>
    dsimp only
    split
    · omega
    · rw [hp, List.length_eraseIdx_of_lt hpick]
      omega

theorem imageProcess_left {P : ImageProcessor} {data : JobPayload} {pick : Nat} {p : ImageProcess}
    {aw : Await (ImageProcess × List Report)} (h : imageProcess P data pick p = some aw) (r : Except Err aw.α) :
    (aw.resume r).1.left < p.left := by
  cases p with
  | report33 file todo =>
    exact promiseAll_left h ImageProcess.left (fun _ => rfl) (Nat.le_refl 8) (fun _ => rfl) r
  | report66 file length todo =>
    exact promiseAll_left h ImageProcess.left (fun _ => rfl) (Nat.le_refl 4) (fun _ => rfl) r
  | findInput =>
    cases h
    cases r with
    | error e => exact Nat.succ_pos _
    | ok file => cases file <;> simp [ImageProcess.left]
  | markActive | publishStart | getObject | readStream | sharp | putObject | createFile | complete | publishCompleted =>
    cases h
    cases r <;> simp [ImageProcess.left, ReportTarget.all]
  | returned | threw => cases h

theorem defaultProcess_left {data : JobPayload} {pick : Nat} {p : DefaultProcess} {aw : Await (DefaultProcess × List Report)}
    (h : defaultProcess data pick p = some aw) (r : Except Err aw.α) : (aw.resume r).1.left < p.left := by
  cases p with
  | report i todo =>
    refine promiseAll_left h DefaultProcess.left (fun _ => rfl) ?_ (fun _ => rfl) r
    split
    · simp only [DefaultProcess.left]
      omega
    · simp [DefaultProcess.left]
  | stage i =>
    cases h
    cases r with
    | error e => exact Nat.add_pos_left (Nat.succ_pos 5) _
    | ok v =>
      simp only [DefaultProcess.left, ReportTarget.all, List.length_cons, List.length_nil]
      omega
  | markActive | complete | publishCompleted =>
    cases h
    cases r <;> simp [DefaultProcess.left, stages]
  | returned | threw => cases h

theorem attempt_left {data : JobPayload} {pick : Nat} {p : Attempt} {aw : Await (Attempt × List Report)}
    (h : p.next data pick = some aw) (r : Except Err aw.α) : (aw.resume r).1.left < p.left := by
  cases p with
  | compress p | convert p =>
    obtain ⟨aw, haw, rfl⟩ := Option.map_eq_some_iff.1 h
    exact imageProcess_left haw r
  | default p =>
    obtain ⟨aw, haw, rfl⟩ := Option.map_eq_some_iff.1 h
    exact defaultProcess_left haw r

theorem failedListener_left {jobId : Uuid} {message : String} {p : FailedListener} {aw : Await FailedListener}
    (h : failedListener jobId message p = some aw) (r : Except Err aw.α) : (aw.resume r).left < p.left := by
  cases p <;> cases h <;> cases r <;> simp [FailedListener.left]

theorem loop_left (count : Nat) (items : List FileRow) : (Sweep.loop count items).left = (0, 2 * items.length) := by
  cases items <;> rfl

theorem afterRow_left {α : Type} (rest : List FileRow) (count : Nat) (r : Except Err α) :
    ∃ n ≤ 2 * rest.length, (Sweep.afterRow rest count r).left = (0, n) := by
  cases r with
  | error e => exact ⟨0, Nat.zero_le _, rfl⟩
  | ok v => exact ⟨2 * rest.length, Nat.le_refl _, loop_left count rest⟩

theorem sweep_left {kind : SweepKind} {p : Sweep} {aw : Await Sweep} (h : sweep cfg kind p = some aw) (r : Except Err aw.α) :
    toLex (aw.resume r).left < toLex p.left := by
  rw [Prod.Lex.toLex_lt_toLex]
  cases p with
  | cutoff =>
    cases h
    cases r <;> exact Or.inl (by simp [Sweep.left])
  | find before =>
    cases h
    cases r with
    | error e => exact Or.inl (Nat.one_pos)
    | ok expired =>
      refine Or.inl ?_
      dsimp only
      rw [loop_left]
      exact Nat.one_pos
  | removeObject file rest count =>
    cases h
    exact Or.inr ⟨rfl, Nat.lt_succ_self _⟩
  | removeRow file rest count =>
    cases kind with
    | pendingUploads | guestResources =>
      cases h
      obtain ⟨n, hn, heq⟩ := afterRow_left rest count r
      change _ ∨ (Sweep.afterRow rest count r).left.1 = 0 ∧ (Sweep.afterRow rest count r).left.2 < 2 * rest.length + 1
      rw [heq]
      exact Or.inr ⟨rfl, Nat.lt_succ_of_le hn⟩
  | returned | threw => cases h

/-- The place of the task whose call settles in a step. -/
def Action.caller : Action → Option Nat
  | .exec i _ _ | .reject i _ _ => some i
  | _ => none

theorem Settles.caller {i pick : Nat} {α : Type} {c : Call α} {r : Except Err α} (h : Settles s i pick a c r) : a.caller = some i := by
  cases h <;> rfl

/-- A task comes closer to its end in the steps that settle its calls, and stays where it is in all others. -/
theorem TaskMoves.rank {i : Nat} {t t' : Task} (h : TaskMoves cfg s a i t t') :
    (t'.rank = t.rank ∧ a.caller ≠ some i) ∨ t'.rank < t.rank := by
  have hfirst : ∀ {m n : Nat}, m < n → toLex (0, m) < (toLex (0, n) : Nat ×ₗ Nat) := fun hmn =>
    Prod.Lex.toLex_lt_toLex.2 (Or.inr ⟨rfl, hmn⟩)
  cases h with
  | waits _ hw =>
    refine Or.inl ⟨rfl, fun hc => hw ?_⟩
    cases a <;> first | exact hc | cases hc
  | settled ho ha =>
    subst ha
    exact Or.inl ⟨rfl, by simp [Action.caller]⟩
  | createUploadUrl hn hr he => exact Or.inr (he ▸ hfirst (createUploadUrl_left hn _))
  | confirmUpload hn hr he => exact Or.inr (he ▸ hfirst (confirmUpload_left hn _))
  | deleteFile hn hr he => exact Or.inr (he ▸ hfirst (deleteFile_left hn _))
  | createJob hn hr he => exact Or.inr (he ▸ hfirst (createJob_left hn _))
  | cancelJob hn hr he => exact Or.inr (he ▸ hfirst (cancelJob_left hn _))
  | attempt hn hr he => exact Or.inr (he ▸ hfirst (attempt_left hn _))
  | failedListener hn hr he => exact Or.inr (he ▸ hfirst (failedListener_left hn _))
  | report hr => exact Or.inr (hfirst Nat.one_pos)
  | sweep hn hr he => exact Or.inr (he ▸ sweep_left hn _)

/-! ## A task that has not ended has a call to make -/

def ImageProcess.todo : ImageProcess → Option (List ReportTarget)
  | .report33 _ todo | .report66 _ _ todo => some todo
  | _ => none

def DefaultProcess.todo : DefaultProcess → Option (List ReportTarget)
  | .report _ todo => some todo
  | _ => none

/-- The calls left of the `Promise.all` an attempt is at, when it is at one. -/
def Attempt.todo : Attempt → Option (List ReportTarget)
  | .compress p | .convert p => p.todo
  | .default p => p.todo

theorem promiseAll_todo {P : Type} {jobId : Uuid} {n pick : Nat} {todo : List ReportTarget} {pending : List ReportTarget → P}
    {done : P} {threw : Err → P} {aw : Await (P × List Report)} (h : promiseAll jobId n todo pick pending done threw = some aw)
    (left : P → Option (List ReportTarget)) (hp : ∀ l, left (pending l) = some l) (hd : left done = none)
    (ht : ∀ e, left (threw e) = none) (r : Except Err aw.α) : left (aw.resume r).1 ≠ some [] := by
  unfold promiseAll at h
  split at h
  · cases h
  cases h
  cases r with
  | error e =>
    dsimp only
    rw [ht]
    exact nofun
  | ok v =>
    dsimp only
    split
    · rw [hd]
      exact nofun
    · rename_i hne
      rw [hp]
      intro heq
      rw [Option.some.inj heq] at hne
      exact hne rfl

theorem imageProcess_todo {P : ImageProcessor} {data : JobPayload} {pick : Nat} {p : ImageProcess}
    {aw : Await (ImageProcess × List Report)} (h : imageProcess P data pick p = some aw) (r : Except Err aw.α) :
    (aw.resume r).1.todo ≠ some [] := by
  cases p with
  | report33 file todo | report66 file length todo =>
    exact promiseAll_todo h ImageProcess.todo (fun _ => rfl) rfl (fun _ => rfl) r
  | findInput =>
    cases h
    cases r with
    | error e => exact nofun
    | ok file => cases file <;> exact nofun
  | markActive | publishStart | getObject | readStream | sharp | putObject | createFile | complete | publishCompleted =>
    cases h
    cases r <;> exact nofun
  | returned | threw => cases h

theorem defaultProcess_todo {data : JobPayload} {pick : Nat} {p : DefaultProcess} {aw : Await (DefaultProcess × List Report)}
    (h : defaultProcess data pick p = some aw) (r : Except Err aw.α) : (aw.resume r).1.todo ≠ some [] := by
  cases p with
  | report i todo =>
    refine promiseAll_todo h DefaultProcess.todo (fun _ => rfl) ?_ (fun _ => rfl) r
    split <;> rfl
  | markActive | stage | complete | publishCompleted =>
    cases h
    cases r <;> exact nofun
  | returned | threw => cases h

theorem attempt_todo {data : JobPayload} {pick : Nat} {p : Attempt} {aw : Await (Attempt × List Report)}
    (h : p.next data pick = some aw) (r : Except Err aw.α) : (aw.resume r).1.todo ≠ some [] := by
  cases p with
  | compress p | convert p =>
    obtain ⟨aw, haw, rfl⟩ := Option.map_eq_some_iff.1 h
    exact imageProcess_todo haw r
  | default p =>
    obtain ⟨aw, haw, rfl⟩ := Option.map_eq_some_iff.1 h
    exact defaultProcess_todo haw r

theorem start_todo (data : JobPayload) : (Attempt.start data).todo = none := by
  unfold Attempt.start
  split
  · rfl
  · split <;> rfl

/-- No attempt waits for a `Promise.all` of no calls. -/
def TodoLeft (s : System) : Prop :=
  ∀ (i k : Nat) data p b, s.tasks[i]? = some (.attempt k data p b) → p.todo ≠ some []

theorem todoLeft_step (h : Stepped cfg s a s') (hI : TodoLeft s) : TodoLeft s' := by
  intro i k data p b hi
  rcases task_back h hi with ⟨t, ht, hm⟩ | ⟨-, hsp⟩
  · cases hm with
    | waits => exact hI i k data p b ht
    | settled => exact hI i k data p false ht
    | attempt hn hr he => exact he ▸ attempt_todo hn _
  · cases hsp with
    | attempt _ _ _ _ hp =>
      rw [hp, start_todo]
      exact nofun

theorem todoLeft (h : (platform cfg).Reach ok s) : TodoLeft s := by
  refine h.invariant (fun s h0 => ?_) (fun s a s' _ hI _ hs => todoLeft_step (step_cases hs) hI)
  subst h0
  intro i k data p b hi
  cases hi

theorem imageProcess_acts {P : ImageProcessor} {data : JobPayload} {p : ImageProcess} (h : p.todo ≠ some []) :
    (∃ aw, imageProcess P data 0 p = some aw) ∨ (∃ o, p = .returned o) ∨ ∃ e, p = .threw e := by
  cases p with
  | report33 file todo | report66 file length todo =>
    cases todo with
    | nil => exact absurd rfl h
    | cons target todo => exact Or.inl ⟨_, rfl⟩
  | returned o => exact Or.inr (Or.inl ⟨o, rfl⟩)
  | threw e => exact Or.inr (Or.inr ⟨e, rfl⟩)
  | _ => exact Or.inl ⟨_, rfl⟩

theorem defaultProcess_acts {data : JobPayload} {p : DefaultProcess} (h : p.todo ≠ some []) :
    (∃ aw, defaultProcess data 0 p = some aw) ∨ p = .returned ∨ ∃ e, p = .threw e := by
  cases p with
  | report i todo =>
    cases todo with
    | nil => exact absurd rfl h
    | cons target todo => exact Or.inl ⟨_, rfl⟩
  | returned => exact Or.inr (Or.inl rfl)
  | threw e => exact Or.inr (Or.inr ⟨e, rfl⟩)
  | _ => exact Or.inl ⟨_, rfl⟩

theorem attempt_acts_or_ended (data : JobPayload) {p : Attempt} (h : p.todo ≠ some []) :
    (∃ aw, p.next data 0 = some aw) ∨ p.outcome.isSome = true := by
  cases p with
  | compress p | convert p =>
    rcases imageProcess_acts h with ⟨aw, haw⟩ | ⟨o, rfl⟩ | ⟨e, rfl⟩
    · exact Or.inl ⟨_, Option.map_eq_some_iff.2 ⟨aw, haw, rfl⟩⟩
    · exact Or.inr rfl
    · exact Or.inr rfl
  | default p =>
    rcases defaultProcess_acts h with ⟨aw, haw⟩ | rfl | ⟨e, rfl⟩
    · exact Or.inl ⟨_, Option.map_eq_some_iff.2 ⟨aw, haw, rfl⟩⟩
    · exact Or.inr rfl
    · exact Or.inr rfl

/-- A task has a call to make or has ended. -/
theorem acts_or_ended (cfg : Config) {t : Task} (h : ∀ k data p b, t = .attempt k data p b → p.todo ≠ some []) :
    (∃ aw, t.next cfg 0 = some aw) ∨ t.over = true := by
  cases t with
  | attempt k data p b =>
    rcases attempt_acts_or_ended data (h k data p b rfl) with ⟨aw, haw⟩ | he
    · exact Or.inl ⟨_, Option.map_eq_some_iff.2 ⟨aw, haw, rfl⟩⟩
    · exact Or.inr he
  | report r done =>
    cases done with
    | false => exact Or.inl ⟨_, rfl⟩
    | true => exact Or.inr rfl
  | createUploadUrl u input p | confirmUpload u f p | deleteFile u f p | createJob u f ty o p | cancelJob u j p
    | failedListener j m p | sweep kind p =>
    cases p <;> first | exact Or.inl ⟨_, rfl⟩ | exact Or.inr rfl

/-- A task that has ended stays so. -/
theorem TaskMoves.over {i : Nat} {t t' : Task} (h : TaskMoves cfg s a i t t') (he : t.over = true) : t'.over = true := by
  have hnone : ∀ {m n : Nat}, m < n → n = 0 → t'.over = true := fun hlt h0 => absurd (h0 ▸ hlt) (Nat.not_lt_zero _)
  cases h with
  | waits => exact he
  | settled ho => exact he
  | @createUploadUrl _ _ _ _ _ r _ hn => exact hnone (createUploadUrl_left hn r) (of_decide_eq_true he)
  | @confirmUpload _ _ _ _ _ r _ hn => exact hnone (confirmUpload_left hn r) (of_decide_eq_true he)
  | @deleteFile _ _ _ _ _ r _ hn => exact hnone (deleteFile_left hn r) (of_decide_eq_true he)
  | @createJob _ _ _ _ _ _ _ r _ hn => exact hnone (createJob_left hn r) (of_decide_eq_true he)
  | @cancelJob _ _ _ _ _ r _ hn => exact hnone (cancelJob_left hn r) (of_decide_eq_true he)
  | attempt hn =>
    obtain ⟨o, ho⟩ := Option.isSome_iff_exists.1 he
    rw [next_of_outcome _ ho] at hn
    cases hn
  | failedListener hn =>
    rw [of_decide_eq_true he] at hn
    cases hn
  | report => cases he
  | @sweep _ p _ _ r _ hn =>
    have hleft : p.left = (0, 0) := of_decide_eq_true he
    have hlt := sweep_left hn r
    rw [hleft, Prod.Lex.toLex_lt_toLex] at hlt
    rcases hlt with hlt | ⟨-, hlt⟩ <;> exact absurd hlt (Nat.not_lt_zero _)

end FileProcessing
