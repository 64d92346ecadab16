import FileProcessing.Lemmas.Objects

/-!
# Objects without a row

Objects and rows are written and removed in separate calls. A processor puts its output before it inserts the row, and does not remove
the object when the insert fails; the guest sweep takes every failure of `removeObject` for an object that is absent, and deletes the
row all the same. No object is orphaned in the runs where `removeObject` fails in a guest sweep only when the object is absent, an
insert that follows a put does not fail, and a client uploads while the row of the upload is there to stay.
-/

namespace FileProcessing

variable {cfg : Config} {ok : System → Action → Prop} {s s' : System} {a : Action} {key : String}

/-- No attempt is left, neither one that runs nor one to come, and no sweep is running. -/
structure AtRest (s : System) : Prop where
  attempts : ∀ (i k : Nat) data p b, s.tasks[i]? = some (.attempt k data p b) → ∃ outcome, p.outcome = some outcome
  queue : ∀ (k : Nat) (job : BullJob), s.world.queue[k]? = some job → job.state = .completed ∨ job.state = .failed
  sweeps : ∀ (i : Nat) kind p, s.tasks[i]? = some (.sweep kind p) → (∃ count, p = .returned count) ∨ ∃ e, p = .threw e

/-- In every reachable state at rest every object is that of a row of `files`. -/
def NoOrphans (cfg : Config) (ok : System → Action → Prop) : Prop :=
  ∀ s, (platform cfg).Reach ok s → AtRest s → ∀ key, s.world.bucket key ≠ none →
    ∃ file ∈ s.world.db.files, file.storagePath = key

/-- A guest sweep has dealt with the object of the file, and is about to delete its row. -/
def Dropping (s : System) (fileId : Uuid) : Prop :=
  ∃ (i : Nat) (g : FileRow) (rest : List FileRow) (count : Nat),
    s.tasks[i]? = some (.sweep .guestResources (.removeRow g rest count)) ∧ g.id = fileId

/-- A row has the path, and no guest sweep is about to delete it. -/
def Recorded (s : System) (path : String) : Prop :=
  ∃ file ∈ s.world.db.files, file.storagePath = path ∧ ¬ Dropping s file.id

/-- The insert of the output fails, in transit or because the database rejects it. -/
def InsertFails (s : System) (a : Action) (i : Nat) (file : NewFile) : Prop :=
  (∃ pick e, a = .reject i pick e) ∨ ∃ pick ch e, a = .exec i pick ch ∧ ((Call.createFile file).exec ch s.world).1 = .error e

/-- The conditions on a step: in a guest sweep the removal of an object fails only when the object is absent; an insert of an output
whose object is there fails only when a row has its path; and a client uploads only when a row has the path of the policy. -/
structure ObjectsRecorded (s : System) (a : Action) : Prop where
  removed : ∀ (i pick : Nat) e g rest count, a = .reject i pick e →
    s.tasks[i]? = some (.sweep .guestResources (.removeObject g rest count)) → s.world.bucket g.storagePath = none
  inserted : ∀ (i k : Nat) data p b file, s.tasks[i]? = some (.attempt k data p b) → p.stage data = .storing file →
    InsertFails s a i file → s.world.bucket file.storagePath ≠ none → Recorded s file.storagePath
  uploaded : ∀ policy size, a = .upload policy size → Recorded s policy.key

/-! ## Recorded paths -/

/-- A guest sweep comes to the row of an item when its object is absent. -/
theorem dropping_back (hok : ObjectsRecorded s a) (h : Stepped cfg s a s') {fileId : Uuid} (hd : Dropping s' fileId) :
    Dropping s fileId ∨ ∃ (i : Nat) (g : FileRow) (rest : List FileRow) (count : Nat),
      s.tasks[i]? = some (.sweep .guestResources (.removeObject g rest count)) ∧ g.id = fileId ∧
        s'.world.bucket g.storagePath = none := by
  obtain ⟨i, g, rest, count, hi, hid⟩ := hd
  rcases task_back h hi with ⟨t, ht, hm⟩ | ⟨-, hsp⟩
  · cases hm with
    | waits => exact Or.inl ⟨i, g, rest, count, ht, hid⟩
    | @sweep _ p _ aw r pick hn hset he =>
      cases p with
      | removeObject g₀ rest₀ count₀ =>
        cases hn
        cases he
        refine Or.inr ⟨i, g, rest, count, ht, hid, ?_⟩
        cases hset with
        | exec ch =>
          have hw : s'.world = s.world.setObject g.storagePath none := world_of_exec h ht rfl
          simp [hw, World.setObject]
        | reject e =>
          rw [world_of_reject h]
          exact hok.removed i pick e g rest count rfl ht
      | cutoff =>
        cases hn
        cases r <;> cases he
      | find before =>
        cases hn
        cases r with
        | error e => cases he
        | ok expired => cases expired <;> cases he
      | removeRow g₀ rest₀ count₀ =>
        cases hn
        cases r with
        | error e => cases he
        | ok v => cases rest₀ <;> cases he
      | returned | threw => cases hn
  · cases hsp

/-- A row is deleted for good by a guest sweep that is about to. -/
theorem dropping_of_hardDelete {i : Nat} {t : Task} {ch : Choice} {u f : Uuid} (hw : Wrote s a i t ch (.hardDelete u f)) :
    Dropping s f := by
  have ht := hw.task
  cases hw.writes with
  | hardDelete g rest count => exact ⟨i, g, rest, count, ht, rfl⟩
  | attempt _ _ _ _ _ hc => exact False.elim hc.ofAttempt

/-- A recorded path whose object is there stays recorded. -/
theorem recorded_step (hr : (platform cfg).Reach ok s) (hok : ObjectsRecorded s a) (h : Stepped cfg s a s')
    (hobj : s'.world.bucket key ≠ none) (hrec : Recorded s key) : Recorded s' key := by
  obtain ⟨file, hfile, hp, hno⟩ := hrec
  have kept : ∃ file' ∈ s'.world.db.files, SameFile file file' := by
    rcases tables_step h with ⟨hfiles, -⟩ | ⟨i, pick, ch, t, aw, ha, ht, hn, hworld⟩
    · exact ⟨file, hfiles ▸ hfile, .refl file⟩
    · rcases files_kept ch aw.call.effect hfile with ⟨file', hfile', hw⟩ | he
      · exact ⟨file', hworld ▸ hfile', hw.same_file⟩
      · exact absurd (dropping_of_hardDelete ⟨⟨pick, ha⟩, ht, cfg, pick, aw, hn, he⟩) hno
  obtain ⟨file', hfile', hsame⟩ := kept
  refine ⟨file', hfile', hsame.storagePath ▸ hp, fun hd => ?_⟩
  rw [← hsame.id] at hd
  rcases dropping_back hok h hd with hd | ⟨i, g, rest, count, hi, hid, hnone⟩
  · exact hno hd
  · have hg := seenAgree hr g file (.item i _ _ hi List.mem_cons_self) (.row hfile) hid
    rw [hg.storagePath, hp] at hnone
    exact hobj hnone

/-- A row that has just been inserted is not about to be deleted. -/
theorem recorded_of_insert (hr : (platform cfg).Reach ok s) (hok : ObjectsRecorded s a) (h : Stepped cfg s a s') {row : FileRow}
    (hrow : row ∈ s'.world.db.files) (hnew : row.id ∉ s.world.issued) : Recorded s' row.storagePath := by
  refine ⟨row, hrow, rfl, fun hd => hnew ?_⟩
  rcases dropping_back hok h hd with ⟨i, g, rest, count, hi, hid⟩ | ⟨i, g, rest, count, hi, hid, -⟩
  · exact hid ▸ seenIssued hr g (.item i _ _ hi List.mem_cons_self)
  · exact hid ▸ seenIssued hr g (.item i _ _ hi List.mem_cons_self)

/-! ## Every object is held -/

/-- An attempt is about to insert the row of the object it has put under the path. -/
def Inserting (s : System) (path : String) : Prop :=
  ∃ (i k : Nat) (data : JobPayload) (p : Attempt) (b : Bool) (file : NewFile),
    s.tasks[i]? = some (.attempt k data p b) ∧ p.stage data = .storing file ∧ file.storagePath = path

/-- Every object has a row, or an attempt is about to insert one. -/
def ObjectsHeld (s : System) : Prop := ∀ key, s.world.bucket key ≠ none → Recorded s key ∨ Inserting s key

/-- An attempt that is about to insert the row of an object does so, or a row has the path. -/
theorem inserting_step (hr : (platform cfg).Reach ok s) (hok : ObjectsRecorded s a) (h : Stepped cfg s a s')
    (hobj : s'.world.bucket key ≠ none) (hold : s.world.bucket key ≠ none) (hi : Inserting s key) :
    Recorded s' key ∨ Inserting s' key := by
  obtain ⟨i, k, data, p, b, file, ht, hg, rfl⟩ := hi
  obtain ⟨t', ht', hm⟩ := task_forward h ht
  cases hm with
  | waits => exact Or.inr ⟨i, k, data, p, b, file, ht', hg, rfl⟩
  | settled ho =>
    rcases outcome_eq (d := data) ho with ⟨o, hs, -⟩ | ⟨e, hs, -⟩ <;> rw [hg] at hs <;> cases hs
  | @attempt _ _ _ p' _ aw r pick hn hset he =>
    refine Or.inl ?_
    cases hset with
    | reject e =>
      have hrec := hok.inserted i k data p b file ht hg (Or.inl ⟨pick, e, rfl⟩) hold
      exact recorded_step hr hok h hobj hrec
    | exec ch =>
      obtain ⟨hc, hst⟩ := attempt_stage hn
      have hstep := hst (aw.call.exec ch s.world).1
      rw [hg] at hc hstep
      rcases hstep.of_storing hc with ⟨e, hx, -⟩ | ⟨row, hx, -⟩
      · have hrec := hok.inserted i k data p b file ht hg (Or.inr ⟨pick, ch, e, rfl, hx⟩) hold
        exact recorded_step hr hok h hobj hrec
      · rcases createFile_cases ch s.world file with ⟨e, hno⟩ | ⟨files, hnew, hmem, hins⟩
        · rw [hno] at hx
          cases hx
        · obtain ⟨aw', hn', hworld, -⟩ := attempt_acts h ht
          have hc' := (attempt_stage hn').1
          rw [hg] at hc'
          rw [exec_world] at hworld
          generalize aw'.call.effect = e at hc' hworld
          cases hc'
          have hrow : FileRepository.newRow s.world.now ch.id file ∈ s'.world.db.files := by
            rw [hworld, Effect.apply, hins]
            exact (hmem _).2 (Or.inr rfl)
          exact recorded_of_insert hr hok h hrow hnew

/-- A step keeps every object held. -/
theorem objectsHeld_step (hr : (platform cfg).Reach ok s) (hok : ObjectsRecorded s a) (h : Stepped cfg s a s')
    (hI : ObjectsHeld s) : ObjectsHeld s' := by
  intro key hobj
  rcases bucket_step h key with hsame | ⟨policy, size, ha, -, -, -, rfl, -⟩ | ⟨i, t, ch, e, hw, ⟨size, rfl, -⟩ | ⟨rfl, hnone⟩⟩
  · have hold : s.world.bucket key ≠ none := hsame ▸ hobj
    rcases hI key hold with hrec | hins
    · exact Or.inl (recorded_step hr hok h hobj hrec)
    · exact inserting_step hr hok h hobj hold hins
  · exact Or.inl (recorded_step hr hok h hobj (hok.uploaded policy size ha))
  · obtain ⟨k, data, p, b, file, ht, hg, hp⟩ := put_stores h hw
    exact Or.inr ⟨i, k, data, p, b, file, ht, hg, hp⟩
  · exact absurd hnone hobj

/-- In every run whose steps meet the conditions. -/
theorem objectsHeld (h : (platform cfg).Reach ObjectsRecorded s) : ObjectsHeld s := by
  refine h.invariant ?_ (fun s a s' hr hI hok hs => objectsHeld_step hr hok (step_cases hs) hI)
  rintro s rfl key hobj
  exact absurd rfl hobj

/-! ## The result -/

/-- No object is orphaned in any run whose steps meet the conditions. -/
theorem no_orphans (cfg : Config) : NoOrphans cfg ObjectsRecorded := by
  intro s hr hrest key hobj
  rcases objectsHeld hr key hobj with ⟨file, hfile, hp, -⟩ | ⟨i, k, data, p, b, file, ht, hg, -⟩
  · exact ⟨file, hfile, hp⟩
  · obtain ⟨outcome, ho⟩ := hrest.attempts i k data p b ht
    rcases outcome_eq (d := data) ho with ⟨o, hs, -⟩ | ⟨e, hs, -⟩ <;> rw [hg] at hs <;> cases hs

/-- A guest uploads a file, it ages, and the guest sweep fails to remove its object. -/
def failedRemoval : List Action :=
  Trace.upload ++ [.tick 3600001, .startSweep .guestResources, Trace.call 2 0, Trace.call 2 0, Trace.drop 2, Trace.call 2 0]

/-- The task is no attempt, and no sweep that runs. -/
def Task.ended : Task → Bool
  | .attempt _ _ _ _ => false
  | .sweep _ (.returned _) => true
  | .sweep _ _ => false
  | _ => true

/-- An object is orphaned in some run: the guest sweep fails to remove it, and deletes its row. -/
theorem object_orphaned : ¬ NoOrphans Config.default Lts.Free := by
  intro h
  have hrun : ((platform Config.default).run System.empty failedRemoval).any (fun s => s.tasks.all Task.ended &&
      s.world.queue.isEmpty && s.world.db.files.rows.isEmpty && (s.world.bucket Trace.key).isSome) = true := by
    decide +kernel
  obtain ⟨s, hs, hp⟩ := Trace.reach hrun
  simp only [Bool.and_eq_true, List.isEmpty_iff, List.all_eq_true] at hp
  obtain ⟨⟨⟨hended, hqueue⟩, hfiles⟩, hobj⟩ := hp
  have hrest : AtRest s := by
    refine ⟨fun i k data p b hi => ?_, fun k job hk => ?_, fun i kind p hi => ?_⟩
    · cases hended _ (List.mem_of_getElem? hi)
    · rw [hqueue] at hk
      cases hk
    · have he := hended _ (List.mem_of_getElem? hi)
      cases p with
      | returned count => exact Or.inl ⟨count, rfl⟩
      | _ => cases he
  obtain ⟨object, ho⟩ := Option.isSome_iff_exists.1 hobj
  obtain ⟨file, hfile, -⟩ := h s hs hrest Trace.key (by rw [ho]; intro hno; cases hno)
  rw [Table.mem_def, hfiles] at hfile
  cases hfile

end FileProcessing
