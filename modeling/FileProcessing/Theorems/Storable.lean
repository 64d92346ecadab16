import FileProcessing.Api.Schemas
import FileProcessing.Lemmas.Keys
import FileProcessing.Lemmas.References

/-!
# What the schemas admit can be stored

A name passes from the body of a request to a row, from the row to the name of an output, and from there to a second row and to the
key of an object. The bodies bound the first name alone. What the rest of the way takes is a bound on the type of a job, and one on the
name of the file it is for, which depends on the type.
-/

namespace FileProcessing

variable {cfg : Config} {s s' : System} {a : Action}

/-- The stem `ConvertProcessor` takes of a name. -/
def stem (name : String) : String := basename name (extname name)

/-- The name is short enough for the output of a job of the type. -/
def OutputFits (type name : String) : Prop :=
  if type = "compress" then (utf8Bytes name).length ≤ 940
  else if type = "jpeg" ∨ type = "png" then (stem name).length ≤ 251 ∧ (utf8Bytes (stem name)).length ≤ 936
  else if type = "webp" then (stem name).length ≤ 250 ∧ (utf8Bytes (stem name)).length ≤ 935
  else True

/-- In every run whose steps meet the condition, every call that is about to be made can be stored. -/
def AlwaysStorable (cfg : Config) (ok : System → Action → Prop) : Prop := ∀ s, (platform cfg).Reach ok s → Storable cfg s

/-- The step is of a run of admitted requests, with no type of more than 63 characters, in which a job is only inserted when the name of
its file is short enough for the type. -/
structure Short (s : System) (a : Action) : Prop where
  admitted : ∀ r random, a = .request r random → r.Admitted
  type : ∀ u f type options random, a = .request (.createJob u f type options) random → type.length ≤ 63
  name : ∀ i pick ch u f type options, a = .exec i pick ch → s.tasks[i]? = some (.createJob u f type options .create) →
    ∀ file ∈ s.world.db.files, file.id = f → OutputFits type file.originalName

/-! ## What a job makes of a name -/

/-- A job of the type is one a processor of images takes, and names its output as the processor does. -/
def OutputNamed (P : ImageProcessor) (data : JobPayload) : Prop :=
  (P = compressProcessor data ∧ data.type = "compress") ∨
    (P = convertProcessor data ∧ (data.type = "jpeg" ∨ data.type = "png" ∨ data.type = "webp"))

theorem fits_iff {data : NewFile} :
    FileRepository.fits data = true ↔ data.originalName.length ≤ 255 ∧ data.mimeType.length ≤ 127 := by
  simp [FileRepository.fits]

/-- The row fits its columns. -/
def RowFits (file : FileRow) : Prop := file.originalName.length ≤ 255 ∧ file.mimeType.length ≤ 127

/-- The name of an output of `ConvertProcessor` is the stem, a dot and the extension. -/
theorem converted_length (data : JobPayload) (file : FileRow) :
    ((convertProcessor data).outputName file).length =
        (stem file.originalName).length + 1 + (formatConfig data.type).1.length ∧
      (utf8Bytes ((convertProcessor data).outputName file)).length =
        (utf8Bytes (stem file.originalName)).length + 1 + (utf8Bytes (formatConfig data.type).1).length := by
  have hdot : (utf8Bytes ".").length = 1 := by decide
  constructor
  · simp only [convertProcessor, String.length_append, stem]
    rfl
  · simp only [convertProcessor, utf8Bytes_append, List.length_append, hdot, stem]

/-- The output of a job fits its columns, and its key the store, exactly when the name of the input is short enough for the type. -/
theorem output_fits {P : ImageProcessor} {data : JobPayload} (hP : OutputNamed P data) {file : FileRow} (hrow : RowFits file)
    (length : Nat) :
    (FileRepository.fits (P.newOutput data file length) = true ∧
      (utf8Bytes (outputKey data.userId data.jobId (P.outputName file))).length ≤ maxKeyLength) ↔
      OutputFits data.type file.originalName := by
  obtain ⟨hname, hmime⟩ := hrow
  have hfits : FileRepository.fits (P.newOutput data file length) = true ↔
      (P.outputName file).length ≤ 255 ∧ (P.mime file).length ≤ 127 := fits_iff
  rw [hfits, length_outputKey, maxKeyLength]
  rcases hP with ⟨rfl, ht⟩ | ⟨rfl, ht⟩
  · rw [OutputFits, if_pos ht]
    simp only [compressProcessor]
    omega
  · obtain ⟨hlength, hbytes⟩ := converted_length data file
    have hjpg : "jpg".length = 3 ∧ (utf8Bytes "jpg").length = 3 := by decide
    have hpng : "png".length = 3 ∧ (utf8Bytes "png").length = 3 := by decide
    have hwebp : "webp".length = 4 ∧ (utf8Bytes "webp").length = 4 := by decide
    have hmimes : "image/jpeg".length ≤ 127 ∧ "image/png".length ≤ 127 ∧ "image/webp".length ≤ 127 := by decide
    have hmime' : (convertProcessor data).mime file = (formatConfig data.type).2 := rfl
    rw [hlength, hbytes, hmime']
    -- the type decides the extension, and which of the bounds is asked for
    rcases ht with ht | ht | ht
    · obtain ⟨hext, hmedia⟩ : (formatConfig data.type).1 = "jpg" ∧ (formatConfig data.type).2 = "image/jpeg" := by
        rw [ht]
        exact ⟨rfl, rfl⟩
      rw [hext, hmedia, OutputFits, if_neg (by simp [ht]), if_pos (Or.inl ht)]
      omega
    · obtain ⟨hext, hmedia⟩ : (formatConfig data.type).1 = "png" ∧ (formatConfig data.type).2 = "image/png" := by
        rw [ht]
        exact ⟨rfl, rfl⟩
      rw [hext, hmedia, OutputFits, if_neg (by simp [ht]), if_pos (Or.inr ht)]
      omega
    · obtain ⟨hext, hmedia⟩ : (formatConfig data.type).1 = "webp" ∧ (formatConfig data.type).2 = "image/webp" := by
        rw [ht]
        exact ⟨rfl, rfl⟩
      rw [hext, hmedia, OutputFits, if_neg (by simp [ht]), if_neg (by simp [ht]), if_pos ht]
      omega

/-- The row fits its columns, and its name is short enough for the output of a job of the type. -/
def InputFits (type : String) (file : FileRow) : Prop := RowFits file ∧ OutputFits type file.originalName

/-! ## What an attempt holds -/

/-- The input file, while an attempt of an image processor holds it. -/
def ImageProcess.input : ImageProcess → Option FileRow
  | .getObject file | .readStream file | .report33 file _ | .sharp file | .report66 file _ _ | .putObject file _
  | .createFile file _ => some file
  | _ => none

/-- The input file an attempt holds. -/
def Attempt.input : Attempt → Option FileRow
  | .compress p | .convert p => p.input
  | .default _ => none

/-- The attempt is one the dispatch starts for the type. -/
def Attempt.OfType (type : String) : Attempt → Prop
  | .compress _ => type = "compress"
  | .convert _ => type = "jpeg" ∨ type = "png" ∨ type = "webp"
  | .default _ => True

theorem ofType_start (data : JobPayload) : (Attempt.start data).OfType data.type := by
  unfold Attempt.start
  split
  · assumption
  split
  · assumption
  · trivial

theorem input_start (data : JobPayload) : (Attempt.start data).input = none := by
  unfold Attempt.start
  split
  · rfl
  split <;> rfl

/-- What a progress report leads to. -/
theorem promiseAll_next {P : Type} {jobId : Uuid} {n pick : Nat} {todo : List ReportTarget} {pending : List ReportTarget → P}
    {done : P} {threw : Err → P} {aw : Await (P × List Report)} (h : promiseAll jobId n todo pick pending done threw = some aw)
    (r : Except Err aw.α) : (∃ l, (aw.resume r).1 = pending l) ∨ (aw.resume r).1 = done ∨ ∃ e, (aw.resume r).1 = threw e := by
  unfold promiseAll at h
  split at h
  · cases h
  · cases h
    cases r with
    | error e => exact Or.inr (Or.inr ⟨e, rfl⟩)
    | ok v =>
      dsimp only
      split
      · exact Or.inr (Or.inl rfl)
      · exact Or.inl ⟨_, rfl⟩

/-- An attempt of an image processor holds the input file it held, or has just read it. -/
theorem image_input {P : ImageProcessor} {data : JobPayload} {pick i : Nat} {p : ImageProcess} {aw : Await (ImageProcess × List Report)}
    (hn : imageProcess P data pick p = some aw) {r : Except Err aw.α} (hr : Settles s i pick a aw.call r) {file : FileRow}
    (hf : (aw.resume r).1.input = some file) :
    p.input = some file ∨ FileRepository.findById s.world.db data.userId data.fileId = some file := by
  cases p with
  | findInput =>
    cases hn
    cases r with
    | error e => cases hf
    | ok v =>
      cases v with
      | none => cases hf
      | some x =>
        cases hf
        obtain ⟨ch, -, hx⟩ := hr.of_ok
        exact Or.inr (Except.ok.inj hx)
  | report33 x todo | report66 x n todo =>
    rcases promiseAll_next hn r with ⟨l, he⟩ | he | ⟨e, he⟩ <;> rw [he] at hf
    · exact Or.inl hf
    · exact Or.inl hf
    · cases hf
  | getObject | readStream | sharp | putObject =>
    cases hn
    cases r with
    | error e => cases hf
    | ok v => exact Or.inl hf
  | markActive | publishStart | createFile | complete | publishCompleted =>
    cases hn
    cases r <;> cases hf
  | returned | threw => cases hn

/-- The calls of an image processor can be stored when its output can. -/
theorem image_fits {P : ImageProcessor} {data : JobPayload} {pick : Nat} {p : ImageProcess} {aw : Await (ImageProcess × List Report)}
    (hn : imageProcess P data pick p = some aw) (hP : OutputNamed P data)
    (hf : ∀ file, p.input = some file → InputFits data.type file) : aw.call.Fits := by
  cases p with
  | putObject file length =>
    cases hn
    obtain ⟨hrow, hout⟩ := hf file rfl
    exact ((output_fits hP hrow length).2 hout).2
  | createFile file length =>
    cases hn
    obtain ⟨hrow, hout⟩ := hf file rfl
    exact ((output_fits hP hrow length).2 hout).1
  | report33 file todo | report66 file n todo =>
    simp only [imageProcess, promiseAll] at hn
    split at hn <;> cases hn
    rename_i target _
    cases target <;> trivial
  | markActive | publishStart | findInput | getObject | readStream | sharp | complete | publishCompleted =>
    cases hn
    trivial
  | returned | threw => cases hn

/-- The calls of the default processor store nothing that could be too long. -/
theorem default_fits {data : JobPayload} {pick : Nat} {p : DefaultProcess} {aw : Await (DefaultProcess × List Report)}
    (hn : defaultProcess data pick p = some aw) : aw.call.Fits := by
  cases p with
  | report =>
    simp only [defaultProcess, promiseAll] at hn
    split at hn <;> cases hn
    rename_i target _
    cases target <;> trivial
  | markActive | stage | complete | publishCompleted =>
    cases hn
    trivial
  | returned | threw => cases hn

/-- An attempt goes on as the same processor. -/
theorem attempt_input {data : JobPayload} {pick i : Nat} {p : Attempt} {aw : Await (Attempt × List Report)}
    (hn : p.next data pick = some aw) {r : Except Err aw.α} (hr : Settles s i pick a aw.call r) (hp : p.OfType data.type) :
    (aw.resume r).1.OfType data.type ∧ ∀ file, (aw.resume r).1.input = some file →
      p.input = some file ∨ FileRepository.findById s.world.db data.userId data.fileId = some file := by
  cases p with
  | compress p | convert p =>
    obtain ⟨aw, hq, rfl⟩ := Option.map_eq_some_iff.1 hn
    exact ⟨hp, fun file hf => image_input hq hr hf⟩
  | default p =>
    obtain ⟨aw, hq, rfl⟩ := Option.map_eq_some_iff.1 hn
    exact ⟨trivial, fun file hf => nomatch hf⟩

/-- The calls of an attempt can be stored when it is of its type and the file it holds fits. -/
theorem attempt_fits {data : JobPayload} {pick : Nat} {p : Attempt} {aw : Await (Attempt × List Report)}
    (hn : p.next data pick = some aw) (hp : p.OfType data.type) (hf : ∀ file, p.input = some file → InputFits data.type file) :
    aw.call.Fits := by
  cases p with
  | compress p =>
    obtain ⟨aw, hq, rfl⟩ := Option.map_eq_some_iff.1 hn
    exact image_fits hq (Or.inl ⟨rfl, hp⟩) hf
  | convert p =>
    obtain ⟨aw, hq, rfl⟩ := Option.map_eq_some_iff.1 hn
    exact image_fits hq (Or.inr ⟨rfl, hp⟩) hf
  | default p =>
    obtain ⟨aw, hq, rfl⟩ := Option.map_eq_some_iff.1 hn
    exact default_fits hq

/-! ## The invariant -/

/-- Every row of the file's id has a name short enough for a job of the type. -/
def NamedFor (s : System) (type : String) (fileId : Uuid) : Prop :=
  ∀ file ∈ s.world.db.files, file.id = fileId → OutputFits type file.originalName

/-- What has been admitted, inserted and read so far fits. -/
structure Fitting (s : System) : Prop where
  rows : ∀ file ∈ s.world.db.files, RowFits file
  uploads : ∀ (i : Nat) u input p, s.tasks[i]? = some (.createUploadUrl u input p) →
    input.filename.length ≤ 255 ∧ input.mimeType.length ≤ 127
  types : ∀ (i : Nat) u f type options p, s.tasks[i]? = some (.createJob u f type options p) → type.length ≤ 63
  creates : ∀ (i : Nat) u f type options row, s.tasks[i]? = some (.createJob u f type options (.add row)) → NamedFor s type f
  entries : ∀ (k : Nat) (job : BullJob), s.world.queue[k]? = some job → NamedFor s job.payload.type job.payload.fileId
  attempts : ∀ (i k : Nat) data p b, s.tasks[i]? = some (.attempt k data p b) →
    p.OfType data.type ∧ ∀ file, p.input = some file → InputFits data.type file

/-- A row keeps its name and its type. -/
theorem FileWrite.names {now : Time} {e : Effect} {r r' : FileRow} (h : FileWrite now e r r') :
    r'.originalName = r.originalName ∧ r'.mimeType = r.mimeType := by
  cases h <;> exact ⟨rfl, rfl⟩

/-- The rows of an id that is issued keep their name. -/
theorem namedFor_step (h : Stepped cfg s a s') {type : String} {f : Uuid} (hf : f ∈ s.world.issued) (hI : NamedFor s type f) :
    NamedFor s' type f :=
  files_written h hf (Q := fun file => OutputFits type file.originalName) (fun _ _ _ _ hw hx => hw.names.1 ▸ hx) hI

/-- What is inserted fits its columns. -/
theorem fits_of_insert {ch : Choice} {w : World} {data : NewFile} {row : FileRow}
    (hx : ((Call.createFile data).exec ch w).1 = .ok row) : RowFits row := by
  simp only [Call.exec] at hx
  split at hx
  · cases hx
  split at hx
  · cases hx
  · rename_i hc
    cases hx
    rw [FileRepository.create_eq] at hc
    split at hc
    · rename_i hkept
      obtain ⟨files, -, he⟩ := Option.map_eq_some_iff.1 hc
      cases he
      exact fits_iff.1 (FileRepository.fits_of_kept hkept)
    · cases hc

theorem fitting_step (hr : (platform cfg).Reach Short s) (hok : Short s a) (h : Stepped cfg s a s') (hI : Fitting s) : Fitting s' where
  rows file hfile := by
    rcases files_step h hfile with hold | ⟨i, t, ch, e, -, ⟨r, hrow, hw⟩ | ⟨data, -, -, -, -, hx⟩⟩
    · exact hI.rows file hold
    · obtain ⟨hname, hmime⟩ := hI.rows r hrow
      exact ⟨hw.names.1 ▸ hname, hw.names.2 ▸ hmime⟩
    · exact fits_of_insert hx
  uploads i u input p hi := by
    rcases task_back h hi with ⟨t, ht, hm⟩ | ⟨-, hsp⟩
    · cases hm with
      | waits => exact hI.uploads i u input p ht
      | createUploadUrl => exact hI.uploads i u input _ ht
    · cases hsp with
      | createUploadUrl random _ ha _ =>
        obtain ⟨body, rfl⟩ := hok.admitted _ _ ha
        exact ⟨body.filename_maxLength, body.mimeType_maxLength⟩
  types i u f type options p hi := by
    rcases task_back h hi with ⟨t, ht, hm⟩ | ⟨hnew, -⟩
    · cases hm with
      | waits => exact hI.types i u f type options p ht
      | createJob => exact hI.types i u f type options _ ht
    · obtain ⟨random, ha, -⟩ := requested h hi hnew rfl
      exact hok.type u f type options random ha
  creates i u f type options row hi := by
    rcases task_back h hi with ⟨t, ht, hm⟩ | ⟨-, hsp⟩
    · rcases create_adds h ht hm with ⟨rfl, -⟩ | ⟨rfl, pick, ch, ha, -, -, -, ⟨file, hfile, hid⟩, -⟩
      · exact namedFor_step h ((issued hr).creates ht).2 (hI.creates i u f type options row ht)
      · refine namedFor_step h (hid ▸ (issued hr).files file hfile) (fun x hx he => ?_)
        exact hok.name i pick ch u f type options ha ht x hx he
    · cases hsp
  entries k job hk := by
    rcases entry_back h hk with ⟨job₀, hk₀, hm⟩ | ⟨i, u, f, type, options, row, ch, -, -, hi, rfl⟩
    · rw [hm.payload]
      exact namedFor_step h ((issued hr).entries hk₀).2 (hI.entries k job₀ hk₀)
    · exact namedFor_step h ((issued hr).creates hi).2 (hI.creates i u f type options row hi)
  attempts i k data p b hi := by
    rcases task_back h hi with ⟨t, ht, hm⟩ | ⟨-, hsp⟩
    · cases hm with
      | waits => exact hI.attempts i k data p b ht
      | settled => exact hI.attempts i k data p _ ht
      | attempt hn hsettles he =>
        subst he
        obtain ⟨htype, hheld⟩ := hI.attempts i k data _ b ht
        obtain ⟨htype', hback⟩ := attempt_input hn hsettles htype
        refine ⟨htype', fun file hf => ?_⟩
        rcases hback file hf with hold | hread
        · exact hheld file hold
        · obtain ⟨hmem, hid, -⟩ := findFile_some hread
          obtain ⟨job, hk, hdata⟩ := (locked hr).entry ht
          exact ⟨hI.rows file hmem, hdata ▸ hI.entries k job hk file hmem (hid.trans (hdata ▸ rfl))⟩
    · cases hsp with
      | attempt _ _ _ _ hp =>
        subst hp
        exact ⟨ofType_start data, fun file hf => nomatch (input_start data).symm.trans hf⟩

theorem fitting (h : (platform cfg).Reach Short s) : Fitting s := by
  refine h.invariant ?_ (fun s a s' hr hI hok hs => fitting_step hr hok (step_cases hs) hI)
  rintro s rfl
  refine ⟨?_, ?_, ?_, ?_, ?_, ?_⟩
  · intro file hfile
    cases hfile
  · intro i u input p hi
    cases hi
  · intro i u f type options p hi
    cases hi
  · intro i u f type options row hi
    cases hi
  · intro k job hk
    cases hk
  · intro i k data p b hi
    cases hi

/-! ## The result -/

/-- What a state that fits is about to call can be stored. -/
theorem storable_of_fitting (hI : Fitting s) : Storable cfg s := by
  intro i pick t aw ht hn
  cases t with
  | createUploadUrl u input p =>
    obtain ⟨aw, hp, rfl⟩ := Option.map_eq_some_iff.1 hn
    cases p with
    | create key =>
      cases hp
      obtain ⟨hname, hmime⟩ := hI.uploads i u input _ ht
      simp [Await.map, Call.Fits, FileRepository.fits, hname, hmime]
    | expiresAt | presign =>
      cases hp
      trivial
    | returned | threw => cases hp
  | createJob u f type options p =>
    obtain ⟨aw, hp, rfl⟩ := Option.map_eq_some_iff.1 hn
    cases p with
    | create =>
      cases hp
      simp [Await.map, Call.Fits, JobRepository.fits, hI.types i u f type options _ ht]
    | findFile | add =>
      cases hp
      trivial
    | returned | threw => cases hp
  | attempt k data p b =>
    obtain ⟨aw, hp, rfl⟩ := Option.map_eq_some_iff.1 hn
    obtain ⟨htype, hheld⟩ := hI.attempts i k data p b ht
    exact attempt_fits hp htype hheld
  | report r done =>
    cases done <;> cases hn
    obtain ⟨j, n, target⟩ := r
    cases target <;> trivial
  | confirmUpload u f p | deleteFile u f p | cancelJob u j p | failedListener j m p =>
    obtain ⟨aw, hp, rfl⟩ := Option.map_eq_some_iff.1 hn
    cases p <;> cases hp <;> trivial
  | sweep kind p =>
    obtain ⟨aw, hp, rfl⟩ := Option.map_eq_some_iff.1 hn
    cases kind <;> cases p <;> cases hp <;> trivial

/-- In a run of admitted requests whose job types and file names are short enough for the outputs, every insert fits its columns and
every key of an object fits the store. -/
theorem short_storable (cfg : Config) : AlwaysStorable cfg Short := fun _ h => storable_of_fitting (fitting h)

/-- Every request is one its schema accepts. -/
def Admitted (_ : System) (a : Action) : Prop := ∀ r random, a = .request r random → r.Admitted

/-- A job whose type is 64 characters long. -/
def longType : List Action :=
  Trace.upload ++ [.request (.createJob (Trace.uuid 1) (Trace.uuid 10) (String.ofList (List.replicate 64 'x')) none) (Trace.uuid 4),
    Trace.call 2 0]

/-- The requests of the run are admitted. -/
theorem admitted_longType : ∀ a ∈ longType, ∀ s, Admitted s a := by
  intro a ha s r random he
  subst he
  simp only [longType, Trace.upload, Trace.call, List.cons_append, List.nil_append, List.mem_cons, Action.request.injEq, reduceCtorEq,
    List.not_mem_nil, false_or, or_false] at ha
  rcases ha with ⟨rfl, -⟩ | ⟨rfl, -⟩ | ⟨rfl, -⟩
  · exact ⟨⟨⟨"a.png", "image/png", 7⟩, by decide, by decide, by decide, by decide, by decide⟩, rfl⟩
  · trivial
  · exact ⟨⟨Trace.uuid 10, String.ofList (List.replicate 64 'x'), none, by decide, fun _ h => nomatch h⟩, rfl, rfl, rfl⟩

/-- Task 2 is about to insert a job whose type does not fit. -/
def insertsLongType (s : System) : Bool :=
  match s.tasks[(2 : Nat)]? with
  | some (.createJob _ _ type _ .create) => 63 < type.length
  | _ => false

/-- `createJobBodySchema` bounds no type, and the insert of a longer one is rejected. -/
theorem not_storable : ¬ AlwaysStorable Config.default Admitted := by
  intro h
  have hrun : ((platform Config.default).run System.empty longType).any insertsLongType = true := by decide +kernel
  obtain ⟨s, hsteps, hlong⟩ := Lts.steps_of_any_ok admitted_longType hrun
  unfold insertsLongType at hlong
  split at hlong
  · rename_i u f type options ht
    have hfits : JobRepository.fits ⟨u, f, type, .pending, 0⟩ = true :=
      h s ⟨System.empty, rfl, hsteps⟩ 2 0 _ _ ht rfl
    have hshort : type.length ≤ 63 := by simpa [JobRepository.fits] using hfits
    have hlong' : 63 < type.length := by simpa using hlong
    omega
  · cases hlong

end FileProcessing
