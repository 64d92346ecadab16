import FileProcessing.Web.Flow

/-!
# The uploads and the jobs of a flow

The callbacks of the two mutations patch whatever state the flow is in: they look neither at the file they uploaded nor at the
submission they answer. A click on the drop zone is ignored while an upload is pending, but a drop is not, so two uploads can be
under way, and the first that completes gives its id to the form of the second. The flow keeps its files apart in the runs where
the upload that succeeds is that of the selected file, and the job that is created was submitted for the file the flow shows.
-/

namespace FileProcessing

variable {σ : Type} {K : FlowKind σ} {ok : Flow σ → FlowAction σ → Prop} {s s' : Flow σ} {past : List (Flow σ × FlowAction σ)}

/-- The call is the upload of the selected file: the last call of the upload mutation, made for that file. -/
def SelectedUpload (s : Flow σ) (call : Nat) : Prop :=
  call + 1 = s.uploads.length ∧ ∃ upload, s.uploads[call]? = some upload ∧ s.state.selectedFile = some upload.argument

/-- The action has been taken. -/
def Happened (past : List (Flow σ × FlowAction σ)) (a : FlowAction σ) : Prop := ∃ step ∈ past, step.2 = a

/-- The id is the one the upload of the selected file returned. -/
def UploadReturned (s : Flow σ) (past : List (Flow σ × FlowAction σ)) (id : String) : Prop :=
  ∃ call, SelectedUpload s call ∧ Happened past (.uploaded call (some id))

/-- The job is one that was created for the file. -/
def CreatedFrom (s : Flow σ) (past : List (Flow σ × FlowAction σ)) (fileId jobId : String) : Prop :=
  ∃ call job, s.jobs[call]? = some job ∧ job.argument.1 = fileId ∧ Happened past (.created call (some jobId))

/-- The flow does not mix up its files: from the step `options` on it has the id of the selected file, in no step has it another,
and from `processing` on it has a job that was created from that id. -/
structure FilesApart (s : Flow σ) (past : List (Flow σ × FlowAction σ)) : Prop where
  uploaded : s.effectiveStep = .options ∨ s.effectiveStep = .processing ∨ s.effectiveStep = .done →
    ∃ id, s.state.uploadedFileId = some id ∧ UploadReturned s past id
  only : ∀ id, s.state.uploadedFileId = some id → UploadReturned s past id
  created : s.effectiveStep = .processing ∨ s.effectiveStep = .done →
    ∃ fileId jobId, s.state.uploadedFileId = some fileId ∧ s.state.jobId = some jobId ∧ CreatedFrom s past fileId jobId

/-- In every reachable state of the flow. -/
def FlowApart (K : FlowKind σ) (ok : Flow σ → FlowAction σ → Prop) : Prop :=
  ∀ s past, (flow K).withPast.Reach (Lts.onSteps ok) (s, past) → FilesApart s past

/-- The conditions on a step: an upload that succeeds is that of the selected file, and a job that is created was submitted for the
file id the flow has. -/
structure AnswersCurrent (s : Flow σ) (a : FlowAction σ) : Prop where
  uploaded : ∀ call id, a = .uploaded call (some id) → SelectedUpload s call
  created : ∀ call id, a = .created call (some id) →
    ∃ job, s.jobs[call]? = some job ∧ s.state.uploadedFileId = some job.argument.1

/-! ## The calls -/

/-- A call that settles keeps its argument. -/
theorem getElem?_settle {α : Type} {calls : List (Mutation α)} {i j : Nat} {call : Mutation α} (h : calls[j]? = some call) :
    ∃ call', (settle calls i)[j]? = some call' ∧ call'.argument = call.argument := by
  unfold settle
  rw [List.getElem?_modify, h]
  by_cases hij : i = j
  · exact ⟨{ call with settled := true }, by simp [hij], rfl⟩
  · exact ⟨call, by simp [hij], rfl⟩

/-- The upload of the selected file is the same once a call settles. -/
theorem SelectedUpload.settled {call : Nat} (h : SelectedUpload s call) (hu : ∃ i, s'.uploads = settle s.uploads i)
    (hf : s'.state.selectedFile = s.state.selectedFile) : SelectedUpload s' call := by
  obtain ⟨i, hu⟩ := hu
  obtain ⟨hlen, upload, hget, hsel⟩ := h
  obtain ⟨upload', hget', harg⟩ := getElem?_settle (i := i) hget
  refine ⟨?_, upload', hu ▸ hget', ?_⟩
  · rw [hlen, hu, settle, List.length_modify]
  · rw [hf, hsel, harg]

/-- The past only grows. -/
theorem Happened.cons {a b : FlowAction σ} (h : Happened past a) : Happened ((s, b) :: past) a := by
  obtain ⟨step, hstep, he⟩ := h
  exact ⟨step, List.mem_cons_of_mem _ hstep, he⟩

/-- The last action has been taken. -/
theorem happened_last (a : FlowAction σ) : Happened ((s, a) :: past) a := ⟨(s, a), List.mem_cons_self, rfl⟩

/-! ## A step keeps the files apart -/

/-- What `FilesApart` says, of the step the flow stores. -/
structure StoredApart (s : Flow σ) (past : List (Flow σ × FlowAction σ)) : Prop where
  uploaded : s.state.step = .options ∨ s.state.step = .processing ∨ s.state.step = .done → ∃ id, s.state.uploadedFileId = some id
  only : ∀ id, s.state.uploadedFileId = some id → UploadReturned s past id
  created : s.state.step = .processing ∨ s.state.step = .done →
    ∃ fileId jobId, s.state.uploadedFileId = some fileId ∧ s.state.jobId = some jobId ∧ CreatedFrom s past fileId jobId

/-- A flow that has no id yet, in a step before `options` or in `error`. -/
theorem storedApart_of_none (hstep : s.state.step = .idle ∨ s.state.step = .error) (hid : s.state.uploadedFileId = none) :
    StoredApart s past where
  uploaded h := by rcases hstep with hs | hs <;> rw [hs] at h <;> simp at h
  only id h := by rw [hid] at h; cases h
  created h := by rcases hstep with hs | hs <;> rw [hs] at h <;> simp at h

/-- An update that leaves the files, the step and the calls alone. -/
theorem StoredApart.same {a : FlowAction σ} (hI : StoredApart s past) (hstep : s'.state.step = s.state.step)
    (hsel : s'.state.selectedFile = s.state.selectedFile) (hid : s'.state.uploadedFileId = s.state.uploadedFileId)
    (hjob : s'.state.jobId = s.state.jobId) (hu : s'.uploads = s.uploads) (hj : ∃ l, s'.jobs = s.jobs ++ l) :
    StoredApart s' ((s, a) :: past) where
  uploaded h := by
    rw [hstep] at h
    rw [hid]
    exact hI.uploaded h
  only id h := by
    rw [hid] at h
    obtain ⟨call, ⟨hlen, upload, hget, hfile⟩, hpast⟩ := hI.only id h
    exact ⟨call, ⟨by rw [hlen, hu], upload, by rw [hu, hget], by rw [hsel, hfile]⟩, hpast.cons⟩
  created h := by
    rw [hstep] at h
    obtain ⟨fileId, jobId, hf, hjid, call, job, hget, harg, hpast⟩ := hI.created h
    obtain ⟨l, hj⟩ := hj
    refine ⟨fileId, jobId, hid.trans hf, hjob.trans hjid, call, job, ?_, harg, hpast.cons⟩
    rw [hj, List.getElem?_append_left (List.getElem?_eq_some_iff.1 hget).1, hget]

/-- An upload that settles. -/
theorem storedApart_uploaded {call : Nat} {id : Option String} (hok : AnswersCurrent s (.uploaded call id))
    (hu : s.update K (.uploaded call id) = some s') (hI : StoredApart s past) :
    StoredApart s' ((s, .uploaded call id) :: past) := by
  simp only [Flow.update] at hu
  split at hu
  · cases id with
    | some id =>
      cases hu
      have hsel := hok.uploaded call id rfl
      refine ⟨fun _ => ⟨id, rfl⟩, fun id' h => ?_, fun h => ?_⟩
      · cases h
        exact ⟨call, hsel.settled ⟨call, rfl⟩ rfl, happened_last _⟩
      · simp at h
    | none =>
      cases hu
      refine ⟨fun h => ?_, fun id' h => ?_, fun h => ?_⟩
      · simp at h
      · obtain ⟨call', hsel, hpast⟩ := hI.only id' h
        exact ⟨call', hsel.settled ⟨call, rfl⟩ rfl, hpast.cons⟩
      · simp at h
  · cases hu

/-- A submission that settles. -/
theorem storedApart_created {call : Nat} {id : Option String} (hok : AnswersCurrent s (.created call id))
    (hu : s.update K (.created call id) = some s') (hI : StoredApart s past) :
    StoredApart s' ((s, .created call id) :: past) := by
  simp only [Flow.update] at hu
  split at hu
  · cases id with
    | some id =>
      cases hu
      obtain ⟨job, hget, hfile⟩ := hok.created call id rfl
      refine ⟨fun _ => ⟨_, hfile⟩, fun id' h => ?_, fun _ => ?_⟩
      · obtain ⟨call', hsel, hpast⟩ := hI.only id' h
        exact ⟨call', hsel, hpast.cons⟩
      · obtain ⟨job', hget', harg⟩ := getElem?_settle (i := call) hget
        exact ⟨_, id, hfile, rfl, call, job', hget', congrArg Prod.fst harg, happened_last _⟩
    | none =>
      cases hu
      refine ⟨fun h => ?_, fun id' h => ?_, fun h => ?_⟩
      · simp at h
      · obtain ⟨call', hsel, hpast⟩ := hI.only id' h
        exact ⟨call', hsel, hpast.cons⟩
      · simp at h
  · cases hu

/-- An update of the flow keeps its files apart. -/
theorem storedApart_update {a : FlowAction σ} (hok : AnswersCurrent s a) (hu : s.update K a = some s') (hI : StoredApart s past) :
    StoredApart s' ((s, a) :: past) := by
  cases a with
  | onFileSelected file =>
    cases file with
    | none =>
      cases hu
      exact hI.same rfl rfl rfl rfl rfl ⟨[], (List.append_nil _).symm⟩
    | some file =>
      cases hu
      exact storedApart_of_none (Or.inl rfl) rfl
  | onSubmit =>
    simp only [Flow.update] at hu
    split at hu
    · cases hu
      exact hI.same rfl rfl rfl rfl rfl ⟨_, rfl⟩
    · cases hu
      exact hI.same rfl rfl rfl rfl rfl ⟨[], (List.append_nil _).symm⟩
  | onReset =>
    cases hu
    exact storedApart_of_none (Or.inl rfl) rfl
  | uploaded call id => exact storedApart_uploaded hok hu hI
  | created call id => exact storedApart_created hok hu hI
  | setSetting | uploadProgress | setToken | ws =>
    cases hu
    exact hI.same rfl rfl rfl rfl rfl ⟨[], (List.append_nil _).symm⟩

/-- The step the flow shows is the one it stores, but for the end of a job. -/
theorem stored_of_effective (h : s.effectiveStep ≠ .error) :
    s.effectiveStep = s.state.step ∨ (s.effectiveStep = .done ∧ s.state.step = .processing) := by
  unfold Flow.effectiveStep at h ⊢
  split
  · rename_i hproc
    split
    · exact Or.inr ⟨rfl, hproc⟩
    · rename_i hne
      rw [if_pos hproc, if_neg hne] at h
      split
      · rename_i hfailed
        rw [if_pos hfailed] at h
        exact absurd rfl h
      · exact Or.inl rfl
  · exact Or.inl rfl

/-- What is stored apart is shown apart. -/
theorem StoredApart.filesApart (h : StoredApart s past) : FilesApart s past where
  uploaded he := by
    have hstep : s.state.step = .options ∨ s.state.step = .processing ∨ s.state.step = .done := by
      rcases stored_of_effective (s := s) (by rcases he with he | he | he <;> simp [he]) with hs | ⟨-, hs⟩
      · exact hs ▸ he
      · exact Or.inr (Or.inl hs)
    obtain ⟨id, hid⟩ := h.uploaded hstep
    exact ⟨id, hid, h.only id hid⟩
  only := h.only
  created he := by
    rcases stored_of_effective (s := s) (by rcases he with he | he <;> simp [he]) with hs | ⟨-, hs⟩
    · exact h.created (hs ▸ he)
    · exact h.created (Or.inl hs)

/-! ## The result -/

/-- A flow keeps its files apart in every run where what succeeds answers the current file. Both `convertFlow` and `compressFlow` are
such flows. -/
theorem files_apart (K : FlowKind σ) : FlowApart K AnswersCurrent := by
  intro s past hr
  have hall : StoredApart s past := by
    refine hr.invariant_past ?_ ?_
    · rintro s ⟨token, rfl⟩
      exact storedApart_of_none (Or.inl rfl) rfl
    · intro s past a s' _ hI hok hs
      obtain ⟨s₁, hu, hs₁⟩ := Option.bind_eq_some_iff.1 hs
      obtain ⟨ha, -, hs₂⟩ := Option.bind_eq_some_iff.1 hs₁
      obtain ⟨ws, -, rfl⟩ := Option.map_eq_some_iff.1 hs₂
      have hI₁ : StoredApart s₁ ((s, a) :: past) := storedApart_update hok hu hI
      exact ⟨hI₁.uploaded, hI₁.only, hI₁.created⟩
  exact hall.filesApart

/-- The user drops a second file while the first uploads, and the first upload completes. -/
def secondDrop : List (FlowAction σ) :=
  [.onFileSelected (some ⟨"image/png"⟩), .onFileSelected (some ⟨"image/png"⟩), .uploaded 0 (some "first")]

/-- The flow has options for the second file, whose upload has not completed. -/
def optionsEarly (p : Flow σ × List (Flow σ × FlowAction σ)) : Bool :=
  p.1.effectiveStep = .options && p.1.uploads.length = 2 &&
    p.2.all (fun step => match step.2 with
      | .uploaded call _ => call ≠ 1
      | _ => true)

/-- A flow that comes there mixes up its files. -/
theorem not_flowApart (h : ((flow K).withPast.run (.mount K none, []) secondDrop).any optionsEarly = true) :
    ¬ FlowApart K Lts.Free := by
  intro hall
  obtain ⟨⟨s, past⟩, hs, hp⟩ := Lts.steps_of_any h
  have hr : (flow K).withPast.Reach (Lts.onSteps Lts.Free) (s, past) := ⟨_, ⟨⟨none, rfl⟩, rfl⟩, hs⟩
  simp only [optionsEarly, Bool.and_eq_true, decide_eq_true_eq, List.all_eq_true] at hp
  obtain ⟨⟨hstep, hlen⟩, hno⟩ := hp
  obtain ⟨id, -, call, ⟨hcall, -⟩, step, hmem, hact⟩ := (hall s past hr).uploaded (Or.inl hstep)
  have hone := hno step hmem
  rw [hact] at hone
  simp only [decide_eq_true_eq] at hone
  omega

/-- Neither flow keeps its files apart in every run: after a second drop the form of the second file has the id of the first. -/
theorem files_mixed : ¬ FlowApart convertFlow Lts.Free ∧ ¬ FlowApart compressFlow Lts.Free :=
  ⟨not_flowApart (by decide +kernel), not_flowApart (by decide +kernel)⟩

end FileProcessing
