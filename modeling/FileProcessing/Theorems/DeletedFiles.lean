import FileProcessing.Lemmas.Tenants

/-!
# Deleted files do not come back

`softDelete` has no guard, `markReady` one on `pending`, and the rest of the code only reads the status: so the status of a row moves
one way. What was called before the row was deleted may still act on what it has read; a confirmation that has read the row as pending
ends in the guarded update.
-/

namespace FileProcessing

variable {env : Env} {ok : Tenants → TenantAction → Prop} {c c' c₀ : Tenants} {a : TenantAction} {f : Uuid}
  {past : List (Tenants × TenantAction)}

/-! ## The statement -/

/-- What the status of a row may become. -/
inductive StatusMoves : FileStatus → FileStatus → Prop where
  | stays (status : FileStatus) : StatusMoves status status
  | confirmed : StatusMoves .pending .ready
  | dropped : StatusMoves .pending .deleted
  | deleted : StatusMoves .ready .deleted

/-- The database with no row of the file. -/
def Db.without (db : Db) (f : Uuid) : Db := { db with files := db.files.delete (fun file => file.id = f) }

/-- The error of a file that is not there. -/
def fileNotFound : Err := notFound "FILE_NOT_FOUND" "File not found"

/-- A call that reads has failed in transit, with the error. -/
def ReadFailed (past : List (Tenants × TenantAction)) (i : Nat) (e : Err) : Prop :=
  ∃ step ∈ past, ∃ countFirst, step.2 = .rejectRead i countFirst e

/-- A call of a task has failed in transit, with the error. -/
def TaskFailed (past : List (Tenants × TenantAction)) (i : Nat) (e : Err) : Prop :=
  ∃ step ∈ past, ∃ pick, step.2 = .platform (.reject i pick e)

/-- The rows of a list were read from a table of the past, less the file, in some order. -/
def DataWithout (env : Env) (past : List (Tenants × TenantAction)) (f u : Uuid) (opts : ListOptions) (data : List FileRow) : Prop :=
  ∃ step ∈ past, ∃ order, FileRepository.selectByUser env.ilike order (step.1.world.db.without f) u opts = .ok data

/-- The total of a list was counted in a table of the past, less the file. -/
def TotalWithout (env : Env) (past : List (Tenants × TenantAction)) (f u : Uuid) (opts : ListOptions) (total : Nat) : Prop :=
  ∃ step ∈ past, FileRepository.countByUser env.ilike (step.1.world.db.without f) u opts = .ok total

/-- The row of the file was deleted in `c₀`; what holds in `c`, after the steps of the past. -/
structure StaysDeleted (env : Env) (f : Uuid) (c₀ c : Tenants) (past : List (Tenants × TenantAction)) : Prop where
  row : ∀ file ∈ c.world.db.files, file.id = f → file.status = .deleted
  /-- A list called since is one of tables without the file. -/
  lists : ∀ (i : Nat) u opts page, c₀.reads.length ≤ i → c.reads[i]? = some (.listFiles u opts (.returned page)) →
    ∃ data total, page = paginated opts.page opts.limit data total ∧ DataWithout env past f u opts data ∧ TotalWithout env past f u opts total
  /-- The calls for the file made since end with `FILE_NOT_FOUND`, or with the error they failed with in transit. -/
  finds : ∀ (i : Nat) u p, c₀.reads.length ≤ i → c.reads[i]? = some (.findFile u f p) →
    p = .findById ∨ ∃ e, p = .threw e ∧ (e = fileNotFound ∨ ReadFailed past i e)
  downloads : ∀ (i : Nat) u p, c₀.reads.length ≤ i → c.reads[i]? = some (.downloadFile u f p) →
    p = .findById ∨ ∃ e, p = .threw e ∧ (e = fileNotFound ∨ ReadFailed past i e)
  creates : ∀ (i : Nat) u ty o p, c₀.system.tasks.length ≤ i → c.system.tasks[i]? = some (.createJob u f ty o p) →
    p = .findFile ∨ ∃ e, p = .threw e ∧ (e = fileNotFound ∨ TaskFailed past i e)
  /-- A confirmation that has returned had returned before. -/
  confirms : ∀ (i : Nat) u file, c.system.tasks[i]? = some (.confirmUpload u f (.returned file)) →
    c₀.system.tasks[i]? = some (.confirmUpload u f (.returned file))

/-- Files that are deleted stay so. -/
structure DeletedForGood (env : Env) : Prop where
  moves : ∀ c a c', (tenants env).Reach Lts.Free c → (tenants env).step c a = some c' →
    ∀ file ∈ c.world.db.files, ∀ file' ∈ c'.world.db.files, file'.id = file.id → StatusMoves file.status file'.status
  gone : ∀ c₀ c past f, (tenants env).Reach Lts.Free c₀ → (∃ file ∈ c₀.world.db.files, file.id = f ∧ file.status = .deleted) →
    (tenants env).withPast.Steps (Lts.onSteps Lts.Free) (c₀, []) (c, past) → StaysDeleted env f c₀ c past

/-! ## The status -/

/-- A write moves the status one way. -/
theorem statusMoves_of_write {now : Time} {e : Effect} {r r' : FileRow} (h : FileWrite now e r r') : StatusMoves r.status r'.status := by
  cases h with
  | same => exact .stays _
  | deleted =>
    cases r.status with
    | pending => exact .dropped
    | ready => exact .deleted
    | deleted => exact .stays _
  | ready _ hp =>
    rw [hp]
    exact .confirmed

/-- A row that was there is the row it was, or has been written to. -/
theorem file_back (hr : (tenants env).Reach ok c) (h : TenantStepped env c a c') {file file' : FileRow} (hmem : file ∈ c.world.db.files)
    (hmem' : file' ∈ c'.world.db.files) (hid : file'.id = file.id) : ∃ now e, FileWrite now e file file' := by
  have same : ∀ {r : FileRow}, r ∈ c.world.db.files → r.id = file.id → r = file :=
    fun hr he => c.world.db.files.eq_of_key_eq hr hmem he
  rcases platform_or_same h with ⟨b, rfl, hs⟩ | ⟨-, hfiles, -⟩
  · rcases files_step hs hmem' with hold | ⟨i, t, ch, e, -, ⟨r, hold, hw⟩ | ⟨data, -, rfl, hn, -⟩⟩
    · cases same hold hid
      exact ⟨0, .none, .same _ _⟩
    · cases same hold (hw.core.1.symm.trans hid)
      exact ⟨_, e, hw⟩
    · have he : ch.id = file.id := hid
      exact absurd (he ▸ (rowsIssued hr).files file hmem) hn
  · rw [hfiles] at hmem'
    cases same hmem' hid
    exact ⟨0, .none, .same _ _⟩

/-- The row of a deleted file is deleted as long as it is there. -/
theorem deleted_stays (h : TenantStepped env c a c') (hid : f ∈ c.world.issued)
    (hI : ∀ file ∈ c.world.db.files, file.id = f → file.status = .deleted) :
    ∀ file ∈ c'.world.db.files, file.id = f → file.status = .deleted := by
  rcases platform_or_same h with ⟨b, rfl, hs⟩ | ⟨-, hfiles, -⟩
  · refine files_written hs hid (fun now e x y hw hx => ?_) hI
    have hm := statusMoves_of_write hw
    rw [hx] at hm
    generalize y.status = status at hm ⊢
    cases hm
    rfl
  · rw [hfiles]
    exact hI

/-! ## The lists -/

/-- A table in which the file is deleted lists what it lists without the row. -/
theorem matching_without {db : Db} (ilike : String → String → Bool) (u : Uuid) (opts : ListOptions)
    (hrow : ∀ file ∈ db.files, file.id = f → file.status = .deleted) :
    FileRepository.matching ilike (db.without f) u opts = FileRepository.matching ilike db u opts := by
  simp only [FileRepository.matching, Db.without, Table.select_delete, List.filter_eq_self]
  intro file hsel
  obtain ⟨hmem, hlisted⟩ := Table.mem_select.1 hsel
  have hne : file.status ≠ .deleted := by
    simp only [FileRepository.listed, Bool.and_eq_true, decide_eq_true_eq] at hlisted
    exact hlisted.1.2
  simpa using fun hid => hne (hrow file hmem hid)

/-- What a step makes of a list. -/
inductive ListMoves (env : Env) (c : Tenants) (u : Uuid) (opts : ListOptions) : Listing FileRow → Listing FileRow → Prop where
  | waits (p : Listing FileRow) : ListMoves env c u opts p p
  | fails (p : Listing FileRow) (e : Err) : ListMoves env c u opts p (.threw e)
  | selects (order : List Uuid) (data : List FileRow)
      (hx : FileRepository.selectByUser env.ilike order c.world.db u opts = .ok data) : ListMoves env c u opts .findAllByUser (.count data)
  | counts (total : Nat) (hx : FileRepository.countByUser env.ilike c.world.db u opts = .ok total) :
      ListMoves env c u opts .findAllByUser (.select total)
  | counted (data : List FileRow) (total : Nat) (hx : FileRepository.countByUser env.ilike c.world.db u opts = .ok total) :
      ListMoves env c u opts (.count data) (.returned (paginated opts.page opts.limit data total))
  | selected (total : Nat) (order : List Uuid) (data : List FileRow)
      (hx : FileRepository.selectByUser env.ilike order c.world.db u opts = .ok data) :
      ListMoves env c u opts (.select total) (.returned (paginated opts.page opts.limit data total))

/-- A list moves so. -/
theorem list_moves {i : Nat} {t t' : ReadTask} {u : Uuid} {opts : ListOptions} {p' : Listing FileRow} (hm : ReadMoves env c a i t t')
    (he : t' = .listFiles u opts p') : ∃ p, t = .listFiles u opts p ∧ ListMoves env c u opts p p' := by
  cases hm with
  | waits => exact ⟨p', he, .waits p'⟩
  | @settles _ r countFirst hn hr =>
    cases t with
    | listFiles u₀ opts₀ p =>
      obtain ⟨aw, hp, rfl⟩ := Option.map_eq_some_iff.1 hn
      cases he
      refine ⟨p, rfl, ?_⟩
      cases p with
      | findAllByUser =>
        cases countFirst <;> cases hp <;> cases r with
        | error e => exact .fails _ e
        | ok v =>
          obtain ⟨ch, hx⟩ := hr.of_ok
          first
            | exact .selects ch.order v hx
            | exact .counts v hx
      | count data =>
        cases hp
        cases r with
        | error e => exact .fails _ e
        | ok total =>
          obtain ⟨ch, hx⟩ := hr.of_ok
          exact .counted data total hx
      | select total =>
        cases hp
        cases r with
        | error e => exact .fails _ e
        | ok data =>
          obtain ⟨ch, hx⟩ := hr.of_ok
          exact .selected total ch.order data hx
      | returned | threw => cases hp
    | findFile | downloadFile | listJobs | findJob =>
      obtain ⟨aw, -, rfl⟩ := Option.map_eq_some_iff.1 hn
      cases he

/-- What a list has read leaves the file out. -/
def ListedWithout (env : Env) (past : List (Tenants × TenantAction)) (f u : Uuid) (opts : ListOptions) : Listing FileRow → Prop
  | .findAllByUser | .threw _ => True
  | .count data => DataWithout env past f u opts data
  | .select total => TotalWithout env past f u opts total
  | .returned page => ∃ data total, page = paginated opts.page opts.limit data total ∧ DataWithout env past f u opts data ∧
      TotalWithout env past f u opts total

/-- The rows a list reads leave the file out. -/
theorem dataWithout_of_row (hrow : ∀ file ∈ c.world.db.files, file.id = f → file.status = .deleted) {u : Uuid} {opts : ListOptions}
    {order : List Uuid} {data : List FileRow} (hx : FileRepository.selectByUser env.ilike order c.world.db u opts = .ok data) :
    DataWithout env ((c, a) :: past) f u opts data := by
  refine ⟨(c, a), List.mem_cons_self, order, ?_⟩
  rw [← hx, FileRepository.selectByUser, FileRepository.selectByUser, matching_without env.ilike u opts hrow]

/-- The total a list counts leaves the file out. -/
theorem totalWithout_of_row (hrow : ∀ file ∈ c.world.db.files, file.id = f → file.status = .deleted) {u : Uuid} {opts : ListOptions}
    {total : Nat} (hx : FileRepository.countByUser env.ilike c.world.db u opts = .ok total) :
    TotalWithout env ((c, a) :: past) f u opts total := by
  refine ⟨(c, a), List.mem_cons_self, ?_⟩
  rw [← hx, FileRepository.countByUser, FileRepository.countByUser, matching_without env.ilike u opts hrow]

theorem DataWithout.cons {step : Tenants × TenantAction} {u : Uuid} {opts : ListOptions} {data : List FileRow}
    (h : DataWithout env past f u opts data) : DataWithout env (step :: past) f u opts data := by
  obtain ⟨old, hmem, he⟩ := h
  exact ⟨old, List.mem_cons_of_mem step hmem, he⟩

theorem TotalWithout.cons {step : Tenants × TenantAction} {u : Uuid} {opts : ListOptions} {total : Nat}
    (h : TotalWithout env past f u opts total) : TotalWithout env (step :: past) f u opts total := by
  obtain ⟨old, hmem, he⟩ := h
  exact ⟨old, List.mem_cons_of_mem step hmem, he⟩

/-- A step of a list reads nothing of the file. -/
theorem listed_step (hrow : ∀ file ∈ c.world.db.files, file.id = f → file.status = .deleted) {u : Uuid} {opts : ListOptions}
    {p p' : Listing FileRow} (hm : ListMoves env c u opts p p') (hI : ListedWithout env past f u opts p) :
    ListedWithout env ((c, a) :: past) f u opts p' := by
  cases hm with
  | waits =>
    cases p with
    | findAllByUser | threw => trivial
    | count data => exact DataWithout.cons hI
    | select total => exact TotalWithout.cons hI
    | returned page =>
      obtain ⟨data, total, he, hdata, htotal⟩ := hI
      exact ⟨data, total, he, hdata.cons, htotal.cons⟩
  | fails => trivial
  | selects order data hx => exact dataWithout_of_row hrow hx
  | counts total hx => exact totalWithout_of_row hrow hx
  | counted data total hx => exact ⟨data, total, rfl, DataWithout.cons hI, totalWithout_of_row hrow hx⟩
  | selected total order data hx => exact ⟨data, total, rfl, dataWithout_of_row hrow hx, TotalWithout.cons hI⟩

/-! ## The calls for one file -/

/-- A row that is found is deleted. -/
theorem found_deleted {db : Db} {u : Uuid} {file : FileRow} (hrow : ∀ file ∈ db.files, file.id = f → file.status = .deleted)
    (h : FileRepository.findById db u f = some file) : file.status = .deleted :=
  hrow file (findFile_some h).1 (findFile_some h).2.1

/-- The lookup of the file by one who reads fails in transit, or finds nothing, or a deleted row. -/
theorem lookup_misses (hrow : ∀ file ∈ c.world.db.files, file.id = f → file.status = .deleted) {i : Nat} {u : Uuid}
    {countFirst : Bool} {r : Except Err (Option FileRow)} (hr : ReadSettles env c i countFirst a (.call (.findFile u f)) r) :
    (∃ e, r = .error e ∧ a = .rejectRead i countFirst e) ∨ r = .ok none ∨ ∃ file, r = .ok (some file) ∧ file.status = .deleted := by
  cases r with
  | error e =>
    rcases hr.of_error with ha | ⟨ch, hx⟩
    · exact Or.inl ⟨e, rfl, ha⟩
    · cases hx
  | ok found =>
    obtain ⟨ch, hx⟩ := hr.of_ok
    cases found with
    | none => exact Or.inr (Or.inl rfl)
    | some file => exact Or.inr (Or.inr ⟨file, rfl, found_deleted hrow (Except.ok.inj hx)⟩)

/-- So what is made of the lookup is an error. -/
theorem lookup_throws {β : Type} {resume : Except Err (Option FileRow) → β} {threw : Err → β}
    (herror : ∀ e, resume (.error e) = threw e) (hnone : resume (.ok none) = threw fileNotFound)
    (hdeleted : ∀ file, file.status = .deleted → resume (.ok (some file)) = threw fileNotFound)
    (hrow : ∀ file ∈ c.world.db.files, file.id = f → file.status = .deleted) {i : Nat} {u : Uuid} {countFirst : Bool}
    {r : Except Err (Option FileRow)} (hr : ReadSettles env c i countFirst a (.call (.findFile u f)) r) :
    ∃ e, resume r = threw e ∧ (e = fileNotFound ∨ ∃ countFirst, a = .rejectRead i countFirst e) := by
  rcases lookup_misses hrow hr with ⟨e, rfl, ha⟩ | rfl | ⟨file, rfl, hfile⟩
  · exact ⟨e, herror e, Or.inr ⟨countFirst, ha⟩⟩
  · exact ⟨fileNotFound, hnone, Or.inl rfl⟩
  · exact ⟨fileNotFound, hdeleted file hfile, Or.inl rfl⟩

/-- A `findById` does not find the file. -/
theorem find_misses (hrow : ∀ file ∈ c.world.db.files, file.id = f → file.status = .deleted) {i : Nat} {t t' : ReadTask} {u : Uuid}
    {p' : FileService.FindById} (hm : ReadMoves env c a i t t') (he : t' = .findFile u f p') : t = .findFile u f p' ∨
      t = .findFile u f .findById ∧ ∃ e, p' = .threw e ∧ (e = fileNotFound ∨ ∃ countFirst, a = .rejectRead i countFirst e) := by
  cases hm with
  | waits => exact Or.inl he
  | @settles _ r countFirst hn hr =>
    cases t with
    | findFile u₀ f₀ p =>
      obtain ⟨aw, hp, rfl⟩ := Option.map_eq_some_iff.1 hn
      cases he
      cases p with
      | findById =>
        refine Or.inr ⟨rfl, ?_⟩
        cases hp
        exact lookup_throws (fun _ => rfl) rfl (fun _ hdeleted => if_pos hdeleted) hrow hr
      | returned | threw => cases hp
    | listFiles | downloadFile | listJobs | findJob =>
      obtain ⟨aw, -, rfl⟩ := Option.map_eq_some_iff.1 hn
      cases he

/-- Nor does a download, which goes on only from a file it has found. -/
theorem download_misses (hrow : ∀ file ∈ c.world.db.files, file.id = f → file.status = .deleted) {i : Nat} {t t' : ReadTask} {u : Uuid}
    {p' : FileService.GetDownloadStream} (hm : ReadMoves env c a i t t') (he : t' = .downloadFile u f p') :
    (∃ file, t = .downloadFile u f (.getObject file)) ∨ t = .downloadFile u f p' ∨
      t = .downloadFile u f .findById ∧ ∃ e, p' = .threw e ∧ (e = fileNotFound ∨ ∃ countFirst, a = .rejectRead i countFirst e) := by
  cases hm with
  | waits => exact Or.inr (Or.inl he)
  | @settles _ r countFirst hn hr =>
    cases t with
    | downloadFile u₀ f₀ p =>
      obtain ⟨aw, hp, rfl⟩ := Option.map_eq_some_iff.1 hn
      cases he
      cases p with
      | findById =>
        refine Or.inr (Or.inr ⟨rfl, ?_⟩)
        cases hp
        exact lookup_throws (fun _ => rfl) rfl (fun _ hdeleted => if_pos hdeleted) hrow hr
      | getObject file => exact Or.inl ⟨file, rfl⟩
      | returned | threw => cases hp
    | listFiles | findFile | listJobs | findJob =>
      obtain ⟨aw, -, rfl⟩ := Option.map_eq_some_iff.1 hn
      cases he

/-- Nor does a `create`. -/
theorem create_misses {s : System} {b : Action} (hrow : ∀ file ∈ s.world.db.files, file.id = f → file.status = .deleted) {i : Nat}
    {t : Task} {u : Uuid} {ty : String} {o : Option JobOptions} {p' : JobService.Create}
    (hm : TaskMoves env.config s b i t (.createJob u f ty o p')) :
    ∃ p, t = .createJob u f ty o p ∧ (p = .create ∨ (∃ job, p = .add job) ∨ p = p' ∨
      p = .findFile ∧ ∃ e, p' = .threw e ∧ (e = fileNotFound ∨ ∃ pick, b = .reject i pick e)) := by
  cases hm with
  | waits => exact ⟨p', rfl, Or.inr (Or.inr (Or.inl rfl))⟩
  | @createJob _ _ _ _ p _ aw r pick hn hr he =>
    refine ⟨p, rfl, ?_⟩
    cases p with
    | findFile =>
      refine Or.inr (Or.inr (Or.inr ⟨rfl, ?_⟩))
      cases hn
      cases r with
      | error e =>
        rcases hr.of_error with ha | ⟨ch, -, hx⟩
        · exact ⟨e, he.symm, Or.inr ⟨pick, ha⟩⟩
        · cases hx
      | ok found =>
        obtain ⟨ch, -, hx⟩ := hr.of_ok
        cases found with
        | none => exact ⟨fileNotFound, he.symm, Or.inl rfl⟩
        | some file => exact ⟨fileNotFound, he.symm.trans (if_pos (found_deleted hrow (Except.ok.inj hx))), Or.inl rfl⟩
    | create => exact Or.inl rfl
    | add job => exact Or.inr (Or.inl ⟨job, rfl⟩)
    | returned | threw => cases hn

/-- A confirmation does not return. -/
theorem confirm_misses {s : System} {b : Action} (hrow : ∀ file ∈ s.world.db.files, file.id = f → file.status = .deleted) {i : Nat}
    {t : Task} {u : Uuid} {file : FileRow} (hm : TaskMoves env.config s b i t (.confirmUpload u f (.returned file))) :
    t = .confirmUpload u f (.returned file) := by
  obtain ⟨p, rfl, hmv⟩ := confirm_moves hm
  cases hmv with
  | waits => rfl
  | repeats pick ch _ _ hmem hid hp => cases hp.symm.trans (hrow file hmem hid)
  | confirms pick ch _ old _ hr =>
    obtain ⟨pending, hmem, hid, -, hp, -⟩ := markReady_some hr
    cases hp.symm.trans (hrow pending hmem hid)

/-! ## The steps since -/

/-- What every step since the deletion keeps. -/
structure SinceDeleted (env : Env) (f : Uuid) (c₀ c : Tenants) (past : List (Tenants × TenantAction)) : Prop where
  issued : f ∈ c.world.issued
  points : ∀ (i : Nat) u opts p, c₀.reads.length ≤ i → c.reads[i]? = some (.listFiles u opts p) → ListedWithout env past f u opts p
  stays : StaysDeleted env f c₀ c past

theorem ReadFailed.cons {step : Tenants × TenantAction} {i : Nat} {e : Err} (h : ReadFailed past i e) : ReadFailed (step :: past) i e := by
  obtain ⟨old, hmem, he⟩ := h
  exact ⟨old, List.mem_cons_of_mem step hmem, he⟩

theorem TaskFailed.cons {step : Tenants × TenantAction} {i : Nat} {e : Err} (h : TaskFailed past i e) : TaskFailed (step :: past) i e := by
  obtain ⟨old, hmem, he⟩ := h
  exact ⟨old, List.mem_cons_of_mem step hmem, he⟩

/-- A read that misses the file goes on missing it. -/
theorem missed_cons {β : Type} {p start : β} {threw : Err → β} {step : Tenants × TenantAction} {i : Nat}
    (h : p = start ∨ ∃ e, p = threw e ∧ (e = fileNotFound ∨ ReadFailed past i e)) :
    p = start ∨ ∃ e, p = threw e ∧ (e = fileNotFound ∨ ReadFailed (step :: past) i e) := by
  rcases h with he | ⟨e, he, hfail⟩
  · exact Or.inl he
  · exact Or.inr ⟨e, he, hfail.imp_right ReadFailed.cons⟩

/-- The lists go on without the file. -/
theorem points_step (h : TenantStepped env c a c') (hI : SinceDeleted env f c₀ c past) (i : Nat) (u : Uuid) (opts : ListOptions)
    (p' : Listing FileRow) (hi : c₀.reads.length ≤ i) (hp' : c'.reads[i]? = some (.listFiles u opts p')) :
    ListedWithout env ((c, a) :: past) f u opts p' := by
  rcases readMoves_back h hp' with ⟨t, ht, hm⟩ | ⟨r, -, -, he⟩
  · obtain ⟨p, rfl, hmv⟩ := list_moves hm rfl
    exact listed_step hI.stays.row hmv (hI.points i u opts p hi ht)
  · cases r <;> cases he
    trivial

/-- A `findById` goes on missing it. -/
theorem finds_step (h : TenantStepped env c a c') (hI : SinceDeleted env f c₀ c past) (i : Nat) (u : Uuid) (p' : FileService.FindById)
    (hi : c₀.reads.length ≤ i) (hp' : c'.reads[i]? = some (.findFile u f p')) :
    p' = .findById ∨ ∃ e, p' = .threw e ∧ (e = fileNotFound ∨ ReadFailed ((c, a) :: past) i e) := by
  rcases readMoves_back h hp' with ⟨t, ht, hm⟩ | ⟨r, -, -, he⟩
  · rcases find_misses hI.stays.row hm rfl with rfl | ⟨-, e, he, hfail⟩
    · exact missed_cons (hI.stays.finds i u p' hi ht)
    · exact Or.inr ⟨e, he, hfail.imp_right (fun ha => ⟨(c, a), List.mem_cons_self, ha⟩)⟩
  · cases r <;> cases he
    exact Or.inl rfl

/-- So does a download. -/
theorem downloads_step (h : TenantStepped env c a c') (hI : SinceDeleted env f c₀ c past) (i : Nat) (u : Uuid)
    (p' : FileService.GetDownloadStream) (hi : c₀.reads.length ≤ i) (hp' : c'.reads[i]? = some (.downloadFile u f p')) :
    p' = .findById ∨ ∃ e, p' = .threw e ∧ (e = fileNotFound ∨ ReadFailed ((c, a) :: past) i e) := by
  rcases readMoves_back h hp' with ⟨t, ht, hm⟩ | ⟨r, -, -, he⟩
  · rcases download_misses hI.stays.row hm rfl with ⟨file, rfl⟩ | rfl | ⟨-, e, he, hfail⟩
    · rcases hI.stays.downloads i u _ hi ht with he | ⟨e, he, -⟩ <;> cases he
    · exact missed_cons (hI.stays.downloads i u p' hi ht)
    · exact Or.inr ⟨e, he, hfail.imp_right (fun ha => ⟨(c, a), List.mem_cons_self, ha⟩)⟩
  · cases r <;> cases he
    exact Or.inl rfl

/-- And a `create`. -/
theorem creates_step (h : TenantStepped env c a c') (hI : SinceDeleted env f c₀ c past) (i : Nat) (u : Uuid) (ty : String)
    (o : Option JobOptions) (p' : JobService.Create) (hi : c₀.system.tasks.length ≤ i)
    (hp' : c'.system.tasks[i]? = some (.createJob u f ty o p')) :
    p' = .findFile ∨ ∃ e, p' = .threw e ∧ (e = fileNotFound ∨ TaskFailed ((c, a) :: past) i e) := by
  have later {p : JobService.Create} (ht : c.system.tasks[i]? = some (.createJob u f ty o p)) :
      p = .findFile ∨ ∃ e, p = .threw e ∧ (e = fileNotFound ∨ TaskFailed ((c, a) :: past) i e) := by
    rcases hI.stays.creates i u ty o p hi ht with he | ⟨e, he, hfail⟩
    · exact Or.inl he
    · exact Or.inr ⟨e, he, hfail.imp_right TaskFailed.cons⟩
  rcases platform_or_same h with ⟨b, rfl, hs⟩ | ⟨htasks, -⟩
  · rcases task_back hs hp' with ⟨t, ht, hm⟩ | ⟨-, hsp⟩
    · obtain ⟨p, rfl, hmv⟩ := create_misses hI.stays.row hm
      rcases hmv with rfl | ⟨job, rfl⟩ | rfl | ⟨-, e, he, hfail⟩
      · rcases later ht with he | ⟨e, he, -⟩ <;> cases he
      · rcases later ht with he | ⟨e, he, -⟩ <;> cases he
      · exact later ht
      · refine Or.inr ⟨e, he, hfail.imp_right ?_⟩
        rintro ⟨pick, rfl⟩
        exact ⟨_, List.mem_cons_self, pick, rfl⟩
    · cases hsp
      exact Or.inl rfl
  · exact later (htasks ▸ hp')

/-- No confirmation returns. -/
theorem confirms_step (h : TenantStepped env c a c') (hI : SinceDeleted env f c₀ c past) (i : Nat) (u : Uuid) (file : FileRow)
    (hp' : c'.system.tasks[i]? = some (.confirmUpload u f (.returned file))) :
    c₀.system.tasks[i]? = some (.confirmUpload u f (.returned file)) := by
  rcases platform_or_same h with ⟨b, rfl, hs⟩ | ⟨htasks, -⟩
  · rcases task_back hs hp' with ⟨t, ht, hm⟩ | ⟨-, hsp⟩
    · cases confirm_misses hI.stays.row hm
      exact hI.stays.confirms i u file ht
    · cases hsp
  · exact hI.stays.confirms i u file (htasks ▸ hp')

/-- One step since. -/
theorem sinceDeleted_step (h : TenantStepped env c a c') (hI : SinceDeleted env f c₀ c past) :
    SinceDeleted env f c₀ c' ((c, a) :: past) where
  issued := issued_kept h hI.issued
  points := points_step h hI
  stays :=
    { row := deleted_stays h hI.issued hI.stays.row
      lists := fun i u opts page hi hp => points_step h hI i u opts (.returned page) hi hp
      finds := finds_step h hI
      downloads := downloads_step h hI
      creates := creates_step h hI
      confirms := confirms_step h hI }

/-- Where the row is deleted nothing has been called since. -/
theorem sinceDeleted_init (hr : (tenants env).Reach ok c₀) (hdel : ∃ file ∈ c₀.world.db.files, file.id = f ∧ file.status = .deleted) :
    SinceDeleted env f c₀ c₀ [] := by
  obtain ⟨file, hmem, rfl, hs⟩ := hdel
  have noRead : ∀ {i : Nat} {t : ReadTask}, c₀.reads.length ≤ i → ¬ c₀.reads[i]? = some t := by
    intro i t hi ht
    have hlt := (List.getElem?_eq_some_iff.1 ht).1
    omega
  have noTask : ∀ {i : Nat} {t : Task}, c₀.system.tasks.length ≤ i → ¬ c₀.system.tasks[i]? = some t := by
    intro i t hi ht
    have hlt := (List.getElem?_eq_some_iff.1 ht).1
    omega
  refine ⟨(rowsIssued hr).files file hmem, fun i u opts p hi hp => absurd hp (noRead hi), ?_⟩
  constructor
  · intro file' hmem' hid
    rw [c₀.world.db.files.eq_of_key_eq hmem' hmem hid]
    exact hs
  · exact fun i u opts page hi hp => absurd hp (noRead hi)
  · exact fun i u p hi hp => absurd hp (noRead hi)
  · exact fun i u p hi hp => absurd hp (noRead hi)
  · exact fun i u ty o p hi hp => absurd hp (noTask hi)
  · exact fun i u file hp => hp

/-! ## The main result -/

/-- A file that is deleted stays deleted, and every call made since misses it. -/
theorem deleted_for_good (env : Env) : DeletedForGood env where
  moves := by
    intro c a c' hr hs file hmem file' hmem' hid
    obtain ⟨now, e, hw⟩ := file_back hr (tenants_step_cases hs) hmem hmem' hid
    exact statusMoves_of_write hw
  gone := by
    intro c₀ c past f hr hdel hsteps
    have hsince : SinceDeleted env f c₀ c past := by
      refine hsteps.invariant_past (I := SinceDeleted env f c₀) hr (sinceDeleted_init hr hdel) ?_
      intro c past a c' _ hI _ hs
      exact sinceDeleted_step (tenants_step_cases hs) hI
    exact hsince.stays

end FileProcessing
