import FileProcessing.Lemmas.Locks
import FileProcessing.Lemmas.Seen

/-!
# What the rows of `jobs` refer to

The input and the output of a row of `jobs` are rows of `files`: the references of the schema. They belong to the user of the
job, which the schema does not say and no statement checks: `create` reads the input as the user's before it inserts the job, and
an attempt inserts its output as the user's before it completes the row.
-/

namespace FileProcessing

variable {cfg : Config} {ok : System → Action → Prop} {s s' : System} {a : Action}

/-- What holds of every row of an id that has been issued still does after a step, when no write to a row ends it. -/
theorem files_written (h : Stepped cfg s a s') {id : Uuid} (hid : id ∈ s.world.issued) {Q : FileRow → Prop}
    (hQ : ∀ now e x y, FileWrite now e x y → Q x → Q y) (hI : ∀ file ∈ s.world.db.files, file.id = id → Q file) :
    ∀ file ∈ s'.world.db.files, file.id = id → Q file := by
  intro file hfile he
  rcases files_step h hfile with hold | ⟨i, t, ch, e, -, ⟨r, hr, hw⟩ | ⟨data, -, rfl, hn, -⟩⟩
  · exact hI file hold he
  · exact hQ _ _ r file hw (hI r hr (hw.same_file.id.trans he))
  · have he' : ch.id = id := he
    exact absurd (he' ▸ hid) hn

/-- What holds of every row of an id that has been issued still does after a step, when it does not depend on the status. -/
theorem files_same (h : Stepped cfg s a s') {id : Uuid} (hid : id ∈ s.world.issued) {Q : FileRow → Prop}
    (hQ : ∀ x y, SameFile x y → Q x → Q y) (hI : ∀ file ∈ s.world.db.files, file.id = id → Q file) :
    ∀ file ∈ s'.world.db.files, file.id = id → Q file :=
  files_written h hid (fun _ _ x y hw => hQ x y hw.same_file) hI

/-! ## The files a call of `create` has read -/

/-- A call of `create` that has read its file goes on for the owner of the file. -/
def CreatesOwn (s : System) : Prop :=
  ∀ (i : Nat) u f ty o, s.tasks[i]? = some (.createJob u f ty o .create) →
    f ∈ s.world.issued ∧ ∀ file ∈ s.world.db.files, file.id = f → file.userId = u

/-- A step keeps the calls of `create` with their owners. -/
theorem createsOwn_step (hr : (platform cfg).Reach ok s) (h : Stepped cfg s a s') (hI : CreatesOwn s) : CreatesOwn s' := by
  intro i u f ty o hi
  have later (hc : f ∈ s.world.issued ∧ ∀ file ∈ s.world.db.files, file.id = f → file.userId = u) :
      f ∈ s'.world.issued ∧ ∀ file ∈ s'.world.db.files, file.id = f → file.userId = u :=
    ⟨issued_step h hc.1, files_same h hc.1 (fun x y hs hx => hs.userId ▸ hx) hc.2⟩
  rcases task_back h hi with ⟨t, ht, hm⟩ | ⟨-, hsp⟩
  · cases hm with
    | waits => exact later (hI i u f ty o ht)
    | @createJob _ _ _ _ p _ aw r pick hn hr' he =>
      cases p with
      | findFile =>
        cases hn
        cases r with
        | error e => cases he
        | ok v =>
          cases v with
          | none => cases he
          | some file =>
            obtain ⟨ch, -, hx⟩ := hr'.of_ok
            obtain ⟨hmem, hid, hu⟩ := findFile_some (Except.ok.inj hx)
            refine later ⟨hid ▸ (issued hr).files file hmem, fun file' hfile' he' => ?_⟩
            rw [s.world.db.files.eq_of_key_eq hfile' hmem (he'.trans hid.symm), hu]
      | create | add =>
        cases hn
        cases r <;> cases he
      | returned | threw => cases hn
  · cases hsp

/-- In every reachable state. -/
theorem createsOwn (h : (platform cfg).Reach ok s) : CreatesOwn s := by
  refine h.invariant ?_ (fun s a s' hr hI _ hs => createsOwn_step hr (step_cases hs) hI)
  rintro s rfl i u f ty o hi
  cases hi

/-! ## The outputs the attempts hold -/

/-- The row of the output, once the attempt has inserted it. -/
def Stage.output : Stage → Option FileRow
  | .completing o | .announcing o | .returned o => o
  | _ => none

/-- An attempt holds the output it held, or has just inserted it. -/
theorem StageStep.output_back {data : JobPayload} {g g' : Stage} {α : Type} {c : Call α} {r : Except Err α} {o : FileRow}
    (h : StageStep data g c r g') (ho : g'.output = some o) : g.output = some o ∨ ∃ file, g = .storing file := by
  cases h with
  | inserted file row => exact Or.inr ⟨file, rfl⟩
  | completed | announced => exact Or.inl ho
  | failed | started | worked | gaveUp | finished | stored => cases ho

/-- The row is an output of the job of the payload. -/
structure OutputOf (data : JobPayload) (o : FileRow) : Prop where
  owner : o.userId = data.userId
  key : ∃ name, o.storagePath = outputKey data.userId data.jobId name
  ne_input : o.id ≠ data.fileId

/-- The output an attempt holds is one of its job, and what the table has under its id is that file. -/
def OutputsHeld (s : System) : Prop :=
  ∀ (i k : Nat) data p b o, s.tasks[i]? = some (.attempt k data p b) → (p.stage data).output = some o →
    OutputOf data o ∧ o.id ∈ s.world.issued ∧ ∀ file ∈ s.world.db.files, file.id = o.id → SameFile o file

/-- The row an attempt has just inserted is an output of its job. -/
theorem outputOf_insert (hr : (platform cfg).Reach ok s) (h : Stepped cfg s a s') {i k : Nat} {data : JobPayload} {p : Attempt}
    {b : Bool} {ch : Choice} {file : NewFile} {row : FileRow} {pick : Nat} (ha : a = .exec i pick ch)
    (ht : s.tasks[i]? = some (.attempt k data p b)) (hg : p.stage data = .storing file)
    (hx : ((Call.createFile file).exec ch s.world).1 = .ok row) :
    OutputOf data row ∧ row = FileRepository.newRow s.world.now ch.id file ∧ ch.id ∉ s.world.issued ∧
      row ∈ s'.world.db.files ∧ row.id ∈ s'.world.issued := by
  subst ha
  obtain ⟨aw, hn, hw, -⟩ := attempt_acts h ht
  have hc := (attempt_stage hn).1
  rw [hg] at hc
  generalize he : aw.call.effect = e at hc
  cases hc
  rw [exec_world, he, Effect.apply] at hw
  obtain ⟨hown, -, hkey⟩ := isOutput_of_stage hg
  rcases createFile_cases ch s.world file with ⟨e, hrej⟩ | ⟨files, hfresh, hmem, hok⟩
  · rw [hrej] at hx
    cases hx
  · rw [hok] at hx hw
    cases hx
    obtain ⟨job, hk, hdata⟩ := (locked hr).entry ht
    have hinput : data.fileId ∈ s.world.issued := hdata ▸ ((issued hr).entries hk).2
    refine ⟨⟨hown, hkey, fun he => hfresh ?_⟩, rfl, hfresh, ?_, ?_⟩
    · have he' : ch.id = data.fileId := he
      exact he' ▸ hinput
    · rw [hw]
      exact (hmem _).2 (Or.inr rfl)
    · rw [hw]
      exact List.mem_cons_self

/-- A step keeps the outputs the attempts hold. -/
theorem outputsHeld_step (hr : (platform cfg).Reach ok s) (h : Stepped cfg s a s') (hI : OutputsHeld s) : OutputsHeld s' := by
  intro i k data p' b o hi ho
  have later (hc : OutputOf data o ∧ o.id ∈ s.world.issued ∧ ∀ file ∈ s.world.db.files, file.id = o.id → SameFile o file) :
      OutputOf data o ∧ o.id ∈ s'.world.issued ∧ ∀ file ∈ s'.world.db.files, file.id = o.id → SameFile o file :=
    ⟨hc.1, issued_step h hc.2.1, files_same h hc.2.1 (fun x y hs hx => hx.trans hs) hc.2.2⟩
  rcases task_back h hi with ⟨t, ht, hm⟩ | ⟨-, hsp⟩
  · cases hm with
    | waits | settled => exact later (hI i k data p' _ o ht ho)
    | @attempt _ _ p _ _ aw r pick hn hr' he =>
      subst he
      have hstage := attempt_stage hn
      rcases (hstage.2 r).output_back ho with hold | ⟨file, hg⟩
      · exact later (hI i k data p b o ht hold)
      · cases r with
        | error e =>
          have hthrew := (hstage.2 (.error e)).of_error
          rw [hthrew] at ho
          cases ho
        | ok v =>
          obtain ⟨ch, ha, hv⟩ := hr'.of_ok
          have hstep := hstage.2 (.ok v)
          rw [← hv, hg] at hstep
          have hcall := hstage.1
          rw [hg] at hcall
          rcases StageStep.of_storing hcall hstep with ⟨e, -, hthrew⟩ | ⟨row, hx, hcomp⟩
          · rw [← hv, hthrew] at ho
            cases ho
          · rw [← hv, hcomp] at ho
            cases ho
            obtain ⟨hout, -, -, hmem, hi'⟩ := outputOf_insert hr h ha ht hg hx
            refine ⟨hout, hi', fun file hfile he => ?_⟩
            rw [s'.world.db.files.eq_of_key_eq hfile hmem he]
            exact .refl o
  · cases hsp with
    | attempt _ _ _ _ hp =>
      rw [hp, stage_start] at ho
      cases ho

/-- In every reachable state. -/
theorem outputsHeld (h : (platform cfg).Reach ok s) : OutputsHeld s := by
  refine h.invariant ?_ (fun s a s' hr hI _ hs => outputsHeld_step hr (step_cases hs) hI)
  rintro s rfl i k data p b o hi
  cases hi

/-! ## The references -/

/-- What the row refers to are rows of `files`. -/
structure References (db : Db) (row : JobRow) : Prop where
  input : ∃ file ∈ db.files, file.id = row.fileId
  output : ∀ o, row.outputFileId = some o → ∃ file ∈ db.files, file.id = o

/-- A hard delete takes the jobs of the file along, and clears the references to it as an output. -/
theorem references_hardDelete {db : Db} {u f : Uuid} (hI : ∀ row ∈ db.jobs, References db row) :
    ∀ row ∈ (FileRepository.hardDelete db u f).jobs, References (FileRepository.hardDelete db u f) row := by
  intro row' hrow'
  simp only [FileRepository.hardDelete, Table.mem_update, Table.mem_delete, if_true] at hrow'
  obtain ⟨row, ⟨hrow, hin⟩, rfl⟩ := hrow'
  have kept {id : Uuid} (hex : ∃ file ∈ db.files, file.id = id)
      (hno : ∀ file ∈ db.files, FileRepository.owned u f file = true → file.id ≠ id) :
      ∃ file ∈ (FileRepository.hardDelete db u f).files, file.id = id := by
    obtain ⟨file, hfile, he⟩ := hex
    exact ⟨file, Table.mem_delete.2 ⟨hfile, Bool.eq_false_iff.2 (fun ho => hno file hfile ho he)⟩, he⟩
  refine ⟨?_, fun o ho => ?_⟩
  · have hfile : (FileRepository.clearOutput (FileRepository.owned u f) db row).fileId = row.fileId := by
      unfold FileRepository.clearOutput
      split <;> rfl
    rw [hfile]
    refine kept (hI row hrow).input (fun file hmem ho he => ?_)
    simp only [List.any_eq_false, Bool.and_eq_true, decide_eq_true_eq, not_and] at hin
    exact hin file hmem ho he.symm
  · unfold FileRepository.clearOutput at ho
    split at ho
    · cases ho
    · rename_i hno
      refine kept ((hI row hrow).output o ho) (fun file hmem hown he => hno ?_)
      simp only [List.any_eq_true, Bool.and_eq_true, decide_eq_true_eq]
      exact ⟨file, hmem, hown, by rw [ho, he]⟩

/-- A write keeps the references. -/
theorem references_apply {ch : Choice} {w : World} {e : Effect} (hI : ∀ row ∈ w.db.jobs, References w.db row) :
    ∀ row ∈ (e.apply ch w).db.jobs, References (e.apply ch w).db row := by
  intro row' hrow'
  by_cases hdel : ∃ u f, e = .hardDelete u f
  · obtain ⟨u, f, rfl⟩ := hdel
    exact references_hardDelete hI row' hrow'
  have kept {id : Uuid} (hex : ∃ file ∈ w.db.files, file.id = id) : ∃ file ∈ (e.apply ch w).db.files, file.id = id := by
    obtain ⟨file, hfile, he⟩ := hex
    rcases files_kept ch e hfile with ⟨file', hfile', hw⟩ | hd
    · exact ⟨file', hfile', hw.core.1.trans he⟩
    · exact absurd ⟨_, _, hd⟩ hdel
  have same {row : JobRow} (hrow : row ∈ w.db.jobs) : References (e.apply ch w).db row :=
    ⟨kept (hI row hrow).input, fun o ho => kept ((hI row hrow).output o ho)⟩
  by_cases hold : row' ∈ w.db.jobs
  · exact same hold
  rcases jobs_apply hrow' with ⟨row, hrow, hw⟩ | ⟨data, rfl, rfl, -, -, hfile⟩
  · cases hw with
    | same => exact same hrow
    | cleared u f => exact absurd ⟨u, f, rfl⟩ hdel
    | progress => exact ⟨kept (hI row hrow).input, fun o ho => kept ((hI row hrow).output o ho)⟩
    | status _ st ex =>
      refine ⟨kept (hI row hrow).input, fun o ho => kept ?_⟩
      cases hex : ex.outputFileId with
      | none =>
        have ho' : ex.outputFileId.or row.outputFileId = some o := ho
        rw [hex, Option.none_or] at ho'
        exact (hI row hrow).output o ho'
      | some x =>
        have ho' : ex.outputFileId.or row.outputFileId = some o := ho
        rw [hex, Option.some_or] at ho'
        exact output_of_updateStatus hrow rfl hrow' hold (hex.trans ho')
    | cancelled => exact ⟨kept (hI row hrow).input, fun o ho => kept ((hI row hrow).output o ho)⟩
  · exact ⟨kept hfile, fun o ho => nomatch ho⟩

/-- The rows of `jobs` refer to rows of `files`. -/
def ReferencesStand (s : System) : Prop := ∀ row ∈ s.world.db.jobs, References s.world.db row

/-- In every reachable state. -/
theorem referencesStand (h : (platform cfg).Reach ok s) : ReferencesStand s := by
  refine h.invariant ?_ (fun s a s' _ hI _ hs => ?_)
  · rintro s rfl row hrow
    exact absurd hrow (Table.not_mem_empty row)
  · cases step_cases hs with
    | exec => exact references_apply hI
    | register => exact fun row hrow => ⟨(hI row hrow).input, (hI row hrow).output⟩
    | _ => exact hI

/-! ## The owners of what the rows refer to -/

/-- The files the row refers to belong to its user. -/
structure OwnReferences (db : Db) (row : JobRow) : Prop where
  input : ∀ file ∈ db.files, file.id = row.fileId → file.userId = row.userId
  output : ∀ o, row.outputFileId = some o → ∀ file ∈ db.files, file.id = o → file.userId = row.userId

/-- The rows of `jobs` refer to files of their users. -/
def ReferencesOwned (s : System) : Prop := ∀ row ∈ s.world.db.jobs, OwnReferences s.world.db row

/-- A step keeps the references of a row to files of its user. -/
theorem ownReferences_step (hr : (platform cfg).Reach ok s) (h : Stepped cfg s a s') {row : JobRow} (hrow : row ∈ s.world.db.jobs)
    (hI : OwnReferences s.world.db row) : OwnReferences s'.world.db row := by
  have later {id : Uuid} (hex : ∃ file ∈ s.world.db.files, file.id = id)
      (hown : ∀ file ∈ s.world.db.files, file.id = id → file.userId = row.userId) :
      ∀ file ∈ s'.world.db.files, file.id = id → file.userId = row.userId := by
    obtain ⟨file, hfile, he⟩ := hex
    exact files_same h (he ▸ (issued hr).files file hfile) (fun x y hs hx => hs.userId ▸ hx) hown
  have href := referencesStand hr row hrow
  exact ⟨later href.input hI.input, fun o ho => later (href.output o ho) (hI.output o ho)⟩

/-- A step keeps the references owned: a job is created for a file of its user, and completed with an output of it. -/
theorem referencesOwned_step (hr : (platform cfg).Reach ok s) (h : Stepped cfg s a s') (hI : ReferencesOwned s) :
    ReferencesOwned s' := by
  intro row' hrow'
  rcases jobs_step h hrow' with hrow | ⟨i, t, ch, e, hw, ⟨row, hrow, hf⟩ | ⟨data, rfl, rfl, hn, -, -⟩⟩
  · exact ownReferences_step hr h hrow (hI row' hrow)
  · have hown := ownReferences_step hr h hrow (hI row hrow)
    cases hf with
    | same => exact hown
    | cleared => exact ⟨hown.input, fun o ho => nomatch ho⟩
    | progress | cancelled => exact ⟨hown.input, hown.output⟩
    | status _ st ex =>
      refine ⟨hown.input, fun o ho file hfile he => ?_⟩
      have ho' : ex.outputFileId.or row.outputFileId = some o := ho
      cases hex : ex.outputFileId with
      | none =>
        rw [hex, Option.none_or] at ho'
        exact hown.output o ho' file hfile he
      | some x =>
        rw [hex, Option.some_or] at ho'
        cases ho'
        have hwr := hw.writes
        generalize hid : row.id = j at hwr
        cases hwr with
        | listenerUpdate => cases hex
        | attempt k data p b _ hc =>
          generalize hg : p.stage data = g at hc
          cases hc with
          | start => cases hex
          | complete output _ hout =>
            rw [hex] at hout
            obtain ⟨x, rfl, rfl⟩ := Option.map_eq_some_iff.1 hout.symm
            obtain ⟨hof, hissued, hsame⟩ := outputsHeld hr i k data p b x hw.task (by rw [hg]; rfl)
            have hsame' := files_same h hissued (fun x y hs hx => hx.trans hs) hsame file hfile he
            obtain ⟨job, hk, hdata⟩ := (locked hr).entry hw.task
            have huser := ((coherent hr).entries hk hrow (by rw [hdata, hid])).2.1
            rw [← hsame'.userId, hof.owner, ← hdata]
            exact huser.symm
  · obtain ⟨u, f, ty, o, rfl, rfl⟩ := job_creator hw
    obtain ⟨hf, hown⟩ := createsOwn hr i u f ty o hw.task
    exact ⟨files_same h hf (fun x y hs hx => hs.userId ▸ hx) hown, fun o ho => nomatch ho⟩

/-- In every reachable state. -/
theorem referencesOwned (h : (platform cfg).Reach ok s) : ReferencesOwned s := by
  refine h.invariant ?_ (fun s a s' hr hI _ hs => referencesOwned_step hr (step_cases hs) hI)
  rintro s rfl row hrow
  exact absurd hrow (Table.not_mem_empty row)

end FileProcessing
