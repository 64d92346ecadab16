import FileProcessing.Lemmas.References

/-!
# What an announced completion says

A processor first completes the row of its job and then announces the completion, with the id of the output. The default processor,
which runs every type that is not a compression or one of the three image formats, has no output and announces the id of its input.
What the image processors announce is so in the runs where the row and a ready output are there when the row is completed, and
nothing changes them between the completion and its announcement.
-/

namespace FileProcessing

variable {cfg : Config} {ok : System → Action → Prop} {s s' : System} {a : Action}

/-- The row of the job is completed with the file `x`, which is ready, belongs to the user of the job, was stored by the job and is
not its input. -/
def TrueCompletion (db : Db) (jobId x : Uuid) : Prop :=
  ∃ row ∈ db.jobs, row.id = jobId ∧ row.status = .completed ∧ row.outputFileId = some x ∧ x ≠ row.fileId ∧
    ∃ file ∈ db.files, file.id = x ∧ file.userId = row.userId ∧ file.status = .ready ∧
      ∃ name, file.storagePath = outputKey row.userId row.id name

/-- When the completion of a job is announced, it is true. -/
def CompletionsTrue (cfg : Config) (ok : System → Action → Prop) : Prop :=
  ∀ s a s' jobId x, (platform cfg).Reach ok s → ok s a → (platform cfg).step s a = some s' →
    s'.world.published = s.world.published ++ [⟨jobId, .completed x⟩] → TrueCompletion s'.world.db jobId x

/-- A processor of images implements the type. -/
def Implemented (type : String) : Prop := type = "compress" ∨ type = "jpeg" ∨ type = "png" ∨ type = "webp"

instance (type : String) : Decidable (Implemented type) := inferInstanceAs (Decidable (_ ∨ _))

/-- The write changes what an attempt of the job with the output `o` is about to announce. -/
def Disturbs (db : Db) (data : JobPayload) (o : Uuid) : Effect → Prop
  | .updateStatus jobId _ extra => jobId = data.jobId ∧ JobRepository.outputExists db extra = true
  | .hardDelete _ fileId => fileId = o ∨ fileId = data.fileId
  | .softDelete _ fileId => fileId = o
  | _ => False

/-- The conditions on a step: what announces a completion has a type that is implemented; the row of the job and a ready output are
there when an attempt completes the row; and no call disturbs a completion that is about to be announced. -/
structure TruthKept (cfg : Config) (s : System) (a : Action) : Prop where
  typed : ∀ i pick ch k data p b o, a = .exec i pick ch → s.tasks[i]? = some (.attempt k data p b) → p.stage data = .announcing o →
    Implemented data.type
  completed : ∀ i pick ch k data p b o, a = .exec i pick ch → s.tasks[i]? = some (.attempt k data p b) →
    p.stage data = .completing (some o) →
    (∃ row ∈ s.world.db.jobs, row.id = data.jobId) ∧ ∃ file ∈ s.world.db.files, file.id = o.id ∧ file.status = .ready
  undisturbed : ∀ (i pick : Nat) ch t aw (j k : Nat) data p b o, a = .exec i pick ch → s.tasks[i]? = some t → t.next cfg pick = some aw →
    s.tasks[j]? = some (.attempt k data p b) → p.stage data = .announcing (some o) →
    ¬ Disturbs s.world.db data o.id aw.call.effect

/-! ## The types without a processor of their own -/

/-- The default processor runs the types that are not implemented. -/
def DefaultTyped (s : System) : Prop :=
  ∀ (i k : Nat) data p b, s.tasks[i]? = some (.attempt k data (.default p) b) → ¬ Implemented data.type

/-- The dispatch. -/
theorem start_default {data : JobPayload} {p : DefaultProcess} (h : Attempt.start data = .default p) : ¬ Implemented data.type := by
  unfold Attempt.start at h
  split at h
  · cases h
  · rename_i hcompress
    split at h
    · cases h
    · rename_i hformat
      rintro (hc | hf)
      · exact hcompress hc
      · exact hformat hf

/-- In every reachable state. -/
theorem defaultTyped (h : (platform cfg).Reach ok s) : DefaultTyped s := by
  refine h.invariant ?_ ?_
  · rintro s rfl i k data p b hi
    cases hi
  rintro s a s' - hI - hs i k data p b hi
  rcases task_back (step_cases hs) hi with ⟨t, ht, hm⟩ | ⟨-, hsp⟩
  · cases hm with
    | waits | settled => exact hI i k data p _ ht
    | @attempt _ _ p₀ _ _ aw r pick hn _ he =>
      cases p₀ with
      | compress p | convert p =>
        obtain ⟨aw, -, rfl⟩ := Option.map_eq_some_iff.1 hn
        cases he
      | default p => exact hI i k data p b ht
  · cases hsp with
    | attempt _ _ _ _ hp => exact start_default hp.symm

/-- An attempt that announces a completion without an output runs the default processor. -/
theorem default_of_announcing {data : JobPayload} {p : Attempt} (h : p.stage data = .announcing none) :
    ∃ q, p = .default q := by
  cases p with
  | compress p | convert p => cases p <;> cases h
  | default p => exact ⟨p, rfl⟩

/-! ## Between the completion and its announcement -/

/-- The row is completed with the output, which is ready. -/
structure CompletedWith (db : Db) (jobId o : Uuid) : Prop where
  row : ∃ row ∈ db.jobs, row.id = jobId ∧ row.status = .completed ∧ row.outputFileId = some o
  file : ∃ file ∈ db.files, file.id = o ∧ file.status = .ready

/-- A write that does not disturb a completion keeps it. -/
theorem completedWith_apply {w : World} {data : JobPayload} {o : Uuid} (ch : Choice) {e : Effect}
    (hin : ∀ row ∈ w.db.jobs, row.id = data.jobId → row.fileId = data.fileId) (hne : ¬ Disturbs w.db data o e)
    (hI : CompletedWith w.db data.jobId o) : CompletedWith (e.apply ch w).db data.jobId o := by
  obtain ⟨row, hrow, hid, hdone, hout⟩ := hI.row
  obtain ⟨file, hfile, hfo, hready⟩ := hI.file
  constructor
  · rcases jobs_kept ch e hrow with ⟨row', hrow', hw⟩ | ⟨u, f, rfl⟩
    · cases hw with
      | same => exact ⟨row, hrow', hid, hdone, hout⟩
      | progress => exact ⟨_, hrow', hid, hdone, hout⟩
      | cleared u f =>
        have hnot : f ≠ o ∧ f ≠ data.fileId := ⟨fun he => hne (Or.inl he), fun he => hne (Or.inr he)⟩
        refine ⟨row, job_outlives hrow ?_ ?_, hid, hdone, hout⟩
        · exact fun he => hnot.2 (he.symm.trans (hin row hrow hid))
        · exact fun he => hnot.1 (Option.some.inj (he.symm.trans hout))
      | status _ st ex =>
        have hno : JobRepository.outputExists w.db ex = false :=
          Bool.eq_false_iff.2 (fun hex => hne ⟨hid, hex⟩)
        rw [updateStatus_rejected ch ⟨row, hrow, rfl⟩ hno]
        exact ⟨row, hrow, hid, hdone, hout⟩
      | cancelled _ hp =>
        rw [hp] at hdone
        cases hdone
    · refine ⟨row, job_outlives hrow ?_ ?_, hid, hdone, hout⟩
      · exact fun he => hne (Or.inr (he.symm.trans (hin row hrow hid)))
      · exact fun he => hne (Or.inl (Option.some.inj (he.symm.trans hout)))
  · rcases files_kept ch e hfile with ⟨file', hfile', hw⟩ | rfl
    · cases hw with
      | same => exact ⟨file, hfile', hfo, hready⟩
      | deleted => exact absurd hfo hne
      | ready _ hp =>
        rw [hp] at hready
        cases hready
    · exact absurd (Or.inl hfo) hne

/-- A completion that is about to be announced is true of the row and the output. -/
def AnnouncedTrue (s : System) : Prop :=
  ∀ (i k : Nat) data p b o, s.tasks[i]? = some (.attempt k data p b) → p.stage data = .announcing (some o) →
    CompletedWith s.world.db data.jobId o.id

/-- The input of a row is the one its job was enqueued with. -/
theorem input_of_attempt (hr : (platform cfg).Reach ok s) {i k : Nat} {data : JobPayload} {p : Attempt} {b : Bool}
    (ht : s.tasks[i]? = some (.attempt k data p b)) :
    ∀ row ∈ s.world.db.jobs, row.id = data.jobId → row.fileId = data.fileId ∧ row.userId = data.userId := by
  intro row hrow hid
  obtain ⟨job, hk, rfl⟩ := (locked hr).entry ht
  obtain ⟨hf, hu, -⟩ := (coherent hr).entries hk hrow hid
  exact ⟨hf, hu⟩

/-- The completion of a row with an output that is ready. -/
theorem completedWith_of_completed {i pick k : Nat} {ch : Choice} {data : JobPayload} {p : Attempt} {b : Bool} {o : FileRow}
    (h : Stepped cfg s (.exec i pick ch) s') (ht : s.tasks[i]? = some (.attempt k data p b))
    (hg : p.stage data = .completing (some o)) (hrow : ∃ row ∈ s.world.db.jobs, row.id = data.jobId)
    (hfile : ∃ file ∈ s.world.db.files, file.id = o.id ∧ file.status = .ready) :
    CompletedWith s'.world.db data.jobId o.id := by
  obtain ⟨aw, hn, hworld, -⟩ := attempt_acts h ht
  obtain ⟨row, hrow, hid⟩ := hrow
  obtain ⟨file, hfile, hfo, hready⟩ := hfile
  have hc := (attempt_stage hn).1
  rw [hg] at hc
  rw [hworld, exec_world]
  generalize aw.call.effect = e at hc
  cases hc with
  | complete _ ex hout =>
    have hex : JobRepository.outputExists s.world.db ex = true := by
      simp only [JobRepository.outputExists, hout, Option.map_some, List.any_eq_true, decide_eq_true_eq]
      exact ⟨file, hfile, hfo⟩
    constructor
    · refine ⟨_, updateStatus_sets ch hrow hid hex, hid, rfl, ?_⟩
      simp [JobRepository.setStatus, hout]
    · rcases files_kept ch (.updateStatus data.jobId .completed ex) hfile with ⟨file', hfile', hw⟩ | he
      · cases hw
        exact ⟨file, hfile', hfo, hready⟩
      · cases he

/-- A step keeps what is about to be announced true. -/
theorem announcedTrue_step (hr : (platform cfg).Reach ok s) (hok : TruthKept cfg s a) (h : Stepped cfg s a s')
    (hI : AnnouncedTrue s) : AnnouncedTrue s' := by
  intro i k data p b o hi hg
  have keeps {b' : Bool} (ht : s.tasks[i]? = some (.attempt k data p b')) : CompletedWith s'.world.db data.jobId o.id := by
    have hold := hI i k data p b' o ht hg
    rcases tables_step h with ⟨hfiles, hjobs⟩ | ⟨j, pick, ch, t, aw, ha, hj, hn, hworld⟩
    · exact ⟨hjobs ▸ hold.row, hfiles ▸ hold.file⟩
    · rw [hworld]
      exact completedWith_apply ch (fun row hrow hid => (input_of_attempt hr ht row hrow hid).1)
        (hok.undisturbed j pick ch t aw i k data p b' o ha hj hn ht hg) hold
  rcases task_back h hi with ⟨t, ht, hm⟩ | ⟨-, hsp⟩
  · cases hm with
    | waits | settled => exact keeps ht
    | @attempt _ _ p₀ _ _ aw r pick hn hset he =>
      have hstep := (attempt_stage hn).2 r
      rw [he, hg] at hstep
      obtain ⟨hg₀, v, rfl⟩ := hstep.to_announcing
      obtain ⟨ch, rfl, -⟩ := hset.of_ok
      obtain ⟨hrow, hfile⟩ := hok.completed i pick ch k data p₀ b o rfl ht hg₀
      exact completedWith_of_completed h ht hg₀ hrow hfile
  · cases hsp with
    | attempt _ _ _ _ hp =>
      rw [hp, stage_start] at hg
      cases hg

/-- In every run whose steps meet the conditions. -/
theorem announcedTrue (h : (platform cfg).Reach (TruthKept cfg) s) : AnnouncedTrue s := by
  refine h.invariant ?_ (fun s a s' hr hI hok hs => announcedTrue_step hr hok (step_cases hs) hI)
  rintro s rfl i k data p b o hi
  cases hi

/-! ## The result -/

/-- A completion is announced by an attempt, with the id of its output or else of its input. -/
theorem completion_announcer {pick : Nat} {t : Task} {aw : Await (Task × List Task)} {jobId x : Uuid}
    (hn : t.next cfg pick = some aw) (he : aw.call.effect = .publish ⟨jobId, .completed x⟩) :
    ∃ k data p b o, t = .attempt k data p b ∧ p.stage data = .announcing o ∧ jobId = data.jobId ∧
      x = (o.map (·.id)).getD data.fileId := by
  have hw := writes_of_next hn
  rw [he] at hw
  cases hw with
  | attempt k data p b _ hc =>
    generalize hg : p.stage data = g at hc
    cases hc with
    | announce o => exact ⟨k, data, p, b, o, rfl, hg, rfl, rfl⟩

/-- Announced completions are true in every run whose steps meet the conditions. -/
theorem completions_true (cfg : Config) : CompletionsTrue cfg (TruthKept cfg) := by
  intro s a s' jobId x hr hok hs hp
  obtain ⟨i, pick, ch, t, aw, ha, ht, hn, he, hworld⟩ := published_exec (step_cases hs) hp
  obtain ⟨k, data, p, b, o, rfl, hg, rfl, rfl⟩ := completion_announcer hn he
  have htype := hok.typed i pick ch k data p b o ha ht hg
  cases o with
  | none =>
    obtain ⟨q, rfl⟩ := default_of_announcing hg
    exact absurd htype (defaultTyped hr i k data q b ht)
  | some o =>
    obtain ⟨⟨row, hrow, hid, hdone, hout⟩, file, hfile, hfo, hready⟩ := announcedTrue hr i k data p b o ht hg
    obtain ⟨hin, hu⟩ := input_of_attempt hr ht row hrow hid
    obtain ⟨hof, -, hsame⟩ := outputsHeld hr i k data p b o ht (by rw [hg]; rfl)
    have hsf := hsame file hfile hfo
    obtain ⟨name, hkey⟩ := hof.key
    rw [hworld]
    refine ⟨row, hrow, hid, hdone, hout, ?_, file, hfile, hfo, ?_, hready, name, ?_⟩
    · exact fun he => hof.ne_input (he.trans hin)
    · rw [← hsf.userId, hof.owner, hu]
    · rw [← hsf.storagePath, hkey, hu, hid]

/-- A conversion to PDF, up to its announcement: the default processor runs it. -/
def pdfJob : List Action :=
  Trace.upload ++ [.request (.createJob (Trace.uuid 1) (Trace.uuid 10) "pdf" none) (Trace.uuid 4), Trace.call 2 0, Trace.call 2 20,
    Trace.call 2 0, .deliver 0] ++ Trace.calls 3 (List.replicate 22 0)

/-- Not every announced completion is true: a conversion to PDF announces its input as its output. -/
theorem completion_untrue : ¬ CompletionsTrue Config.default Lts.Free := by
  intro h
  have hrun : ((platform Config.default).run System.empty pdfJob).any (fun s =>
      ((platform Config.default).step s (Trace.call 3 0)).any (fun s' =>
        s'.world.published = s.world.published ++ [⟨Trace.uuid 20, .completed (Trace.uuid 10)⟩] &&
          s'.world.db.jobs.rows.all (fun row => row.fileId = Trace.uuid 10))) = true := by
    decide +kernel
  obtain ⟨s, hs, hp⟩ := Trace.reach hrun
  obtain ⟨s', hs', hp'⟩ := (Option.any_eq_true _ _).1 hp
  rw [Bool.and_eq_true, decide_eq_true_eq, List.all_eq_true] at hp'
  obtain ⟨row, hrow, -, -, -, hne, -⟩ := h s _ s' _ _ hs trivial hs' hp'.1
  exact hne (of_decide_eq_true (hp'.2 row hrow)).symm

end FileProcessing
