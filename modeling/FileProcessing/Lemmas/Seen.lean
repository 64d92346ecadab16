import FileProcessing.Lemmas.Identity

/-!
# The rows the tasks have read

A confirmation and a sweep go on with rows they read earlier, and a row may change under them; what never changes is whose it
is, where its object is and how long it is. `Seen` are the rows of the table and the rows the tasks hold, and `seen_back` says
that a step adds to them only the row it inserts.
-/

namespace FileProcessing

variable {cfg : Config} {ok : System → Action → Prop} {s s' : System} {a : Action}

/-- The two are the same file. -/
structure SameFile (x y : FileRow) : Prop where
  id : x.id = y.id
  userId : x.userId = y.userId
  storagePath : x.storagePath = y.storagePath
  size : x.size = y.size

theorem SameFile.refl (x : FileRow) : SameFile x x := ⟨rfl, rfl, rfl, rfl⟩

theorem SameFile.symm {x y : FileRow} (h : SameFile x y) : SameFile y x :=
  ⟨h.id.symm, h.userId.symm, h.storagePath.symm, h.size.symm⟩

theorem SameFile.trans {x y z : FileRow} (h : SameFile x y) (h' : SameFile y z) : SameFile x z :=
  ⟨h.id.trans h'.id, h.userId.trans h'.userId, h.storagePath.trans h'.storagePath, h.size.trans h'.size⟩

theorem FileWrite.same_file {now : Time} {e : Effect} {r r' : FileRow} (h : FileWrite now e r r') : SameFile r r' :=
  ⟨h.core.1.symm, h.core.2.1.symm, h.core.2.2.1.symm, h.core.2.2.2.symm⟩

/-! ## The items of a sweep -/

/-- The items a sweep has still to deal with. -/
def Sweep.items : Sweep → List FileRow
  | .removeObject file rest _ | .removeRow file rest _ => file :: rest
  | _ => []

/-- The rows a sweep reads. -/
def SweepKind.batch : SweepKind → Db → Time → List FileRow
  | .pendingUploads, db, before => FileRepository.findExpiredPending db before
  | .guestResources, db, before => FileRepository.findExpiredGuestFiles db before

@[simp] theorem Sweep.loop_items (count : Nat) (l : List FileRow) : (Sweep.loop count l).items = l := by
  cases l <;> rfl

/-- A row a sweep reads is a row of `files`. -/
theorem mem_batch {kind : SweepKind} {db : Db} {before : Time} {file : FileRow} (h : file ∈ kind.batch db before) :
    file ∈ db.files := by
  cases kind <;> exact (Table.mem_select.1 h).1

/-- The pending sweep reads pending rows. -/
theorem pending_of_batch {db : Db} {before : Time} {file : FileRow}
    (h : file ∈ SweepKind.pendingUploads.batch db before) : file.status = .pending := by
  have hp := (Table.mem_select.1 h).2
  simp only [Bool.and_eq_true, decide_eq_true_eq] at hp
  exact hp.1

/-- An item of a sweep was one before, or has just been read. -/
theorem sweep_items {kind : SweepKind} {p' : Sweep} {i : Nat} {t : Task} {file : FileRow}
    (hm : TaskMoves cfg s a i t (.sweep kind p')) (hf : file ∈ p'.items) :
    ∃ p, t = .sweep kind p ∧ (file ∈ p.items ∨
      ∃ before pick ch, p = .find before ∧ a = .exec i pick ch ∧ file ∈ kind.batch s.world.db before) := by
  cases hm with
  | waits => exact ⟨p', rfl, Or.inl hf⟩
  | @sweep _ p _ aw r pick hn hr he =>
    refine ⟨p, rfl, ?_⟩
    cases p with
    | cutoff =>
      cases hn
      cases r <;> cases he <;> cases hf
    | find before =>
      cases hn
      cases r with
      | error e =>
        cases he
        cases hf
      | ok expired =>
        cases he
        rw [Sweep.loop_items] at hf
        obtain ⟨ch, ha, hx⟩ := hr.of_ok
        refine Or.inr ⟨before, pick, ch, rfl, ha, ?_⟩
        cases kind <;> cases hx <;> exact mem_inOrder.1 hf
    | removeObject g rest count =>
      cases hn
      cases he
      exact Or.inl hf
    | removeRow g rest count =>
      cases hn
      refine Or.inl ?_
      cases kind
      all_goals
        cases r with
        | error e =>
          cases he
          cases hf
        | ok v =>
          cases he
          exact List.mem_cons_of_mem g (by simpa [SweepKind.removeRow, Sweep.afterRow] using hf)
    | returned count => cases hn
    | threw e => cases hn

/-- A sweep of the kind has the row among its items. -/
def HeldItem (kind : SweepKind) (s : System) (file : FileRow) : Prop :=
  ∃ (i : Nat) (p : Sweep), s.tasks[i]? = some (.sweep kind p) ∧ file ∈ p.items

/-- A row is held because it was held, or because a sweep has just read it. -/
theorem heldItem_back {kind : SweepKind} {file : FileRow} (h : Stepped cfg s a s') (hh : HeldItem kind s' file) :
    HeldItem kind s file ∨ ∃ i pick ch before, a = .exec i pick ch ∧ s.tasks[i]? = some (.sweep kind (.find before)) ∧
      file ∈ kind.batch s.world.db before := by
  obtain ⟨i, p', hi, hf⟩ := hh
  rcases task_back h hi with ⟨t, ht, hm⟩ | ⟨-, hsp⟩
  · obtain ⟨p, rfl, hold | ⟨before, pick, ch, rfl, ha, hb⟩⟩ := sweep_items hm hf
    · exact Or.inl ⟨i, p, ht, hold⟩
    · exact Or.inr ⟨i, pick, ch, before, ha, ht, hb⟩
  · cases hsp
    cases hf

/-- A sweep of the kind has the file among its items. -/
def Held (kind : SweepKind) (s : System) (fileId : Uuid) : Prop := ∃ file, HeldItem kind s file ∧ file.id = fileId

/-- A file is held because it was held, or because a sweep has just read it. -/
theorem held_back {kind : SweepKind} {fileId : Uuid} (h : Stepped cfg s a s') (hh : Held kind s' fileId) :
    Held kind s fileId ∨ ∃ i pick ch before, a = .exec i pick ch ∧ s.tasks[i]? = some (.sweep kind (.find before)) ∧
      ∃ file ∈ kind.batch s.world.db before, file.id = fileId := by
  obtain ⟨file, hi, hid⟩ := hh
  rcases heldItem_back h hi with hi | ⟨i, pick, ch, before, ha, ht, hb⟩
  · exact Or.inl ⟨file, hi, hid⟩
  · exact Or.inr ⟨i, pick, ch, before, ha, ht, file, hb, hid⟩

/-! ## The rows seen -/

/-- The row is one of the table, or a task holds it. -/
inductive Seen (s : System) (file : FileRow) : Prop where
  | row (h : file ∈ s.world.db.files)
  | created (i : Nat) (u : Uuid) (input : FileService.CreateUploadUrlInput)
      (h : s.tasks[i]? = some (.createUploadUrl u input (.expiresAt file)))
  | presigned (i : Nat) (u : Uuid) (input : FileService.CreateUploadUrlInput) (policy : PostPolicy)
      (h : s.tasks[i]? = some (.createUploadUrl u input (.presign file policy)))
  | confirmed (i : Nat) (u f : Uuid) (p : FileService.ConfirmUpload) (h : s.tasks[i]? = some (.confirmUpload u f p))
      (hp : p = .statObject file ∨ p = .markReady file ∨ p = .returned file)
  | item (i : Nat) (kind : SweepKind) (p : Sweep) (h : s.tasks[i]? = some (.sweep kind p)) (hf : file ∈ p.items)

/-- The row has just been inserted. -/
def Inserted (s s' : System) (a : Action) (file : FileRow) : Prop :=
  ∃ i t ch data, Wrote s a i t ch (.createFile data) ∧ ((Call.createFile data).exec ch s.world).1 = .ok file ∧
    file = FileRepository.newRow s.world.now ch.id data ∧ ch.id ∉ s.world.issued ∧ ch.id ∈ s'.world.issued ∧
    file ∈ s'.world.db.files

/-- Rows inserted in one step are one. -/
theorem Inserted.unique {x y : FileRow} (hx : Inserted s s' a x) (hy : Inserted s s' a y) : x.id = y.id := by
  obtain ⟨i, t, ch, data, hw, -, rfl, -⟩ := hx
  obtain ⟨i', t', ch', data', hw', -, rfl, -⟩ := hy
  obtain ⟨pick, ha⟩ := hw.action
  obtain ⟨pick', ha'⟩ := hw'.action
  rw [ha] at ha'
  cases ha'
  rfl

/-- `createUploadUrl` starts by throwing or at its insert. -/
theorem createUploadUrl_start_cases (cfg : Config) (u : Uuid) (input : FileService.CreateUploadUrlInput) (random : Uuid) :
    (∃ e, FileService.createUploadUrl.start cfg u input random = .threw e) ∨
      ∃ key, FileService.createUploadUrl.start cfg u input random = .create key := by
  unfold FileService.createUploadUrl.start
  split
  · exact Or.inl ⟨_, rfl⟩
  · split
    · exact Or.inl ⟨_, rfl⟩
    · exact Or.inr ⟨_, rfl⟩

/-- The moves of `createUploadUrl`. -/
inductive ReserveMoves (cfg : Config) (s : System) (a : Action) (i : Nat) (u : Uuid) (input : FileService.CreateUploadUrlInput) :
    FileService.CreateUploadUrl → FileService.CreateUploadUrl → Prop where
  | waits (p : FileService.CreateUploadUrl) (hw : a.actor ≠ some i) : ReserveMoves cfg s a i u input p p
  | throws (p : FileService.CreateUploadUrl) (e : Err) : ReserveMoves cfg s a i u input p (.threw e)
  | creates (pick : Nat) (ch : Choice) (ha : a = .exec i pick ch) (key : String) (file : FileRow)
      (hx : ((Call.createFile ⟨u, input.filename, input.mimeType, input.size, key, .pending⟩).exec ch s.world).1 = .ok file) :
      ReserveMoves cfg s a i u input (.create key) (.expiresAt file)
  | dates (file : FileRow) (now : Time) : ReserveMoves cfg s a i u input (.expiresAt file) (.presign file
      ⟨file.storagePath, now + cfg.presignedUrlTtlSeconds * 1000, input.size, input.size, input.mimeType⟩)
  | signs (file : FileRow) (policy : PostPolicy) :
      ReserveMoves cfg s a i u input (.presign file policy) (.returned ⟨file.id, policy, policy.expires⟩)

/-- `createUploadUrl` moves so. -/
theorem reserve_moves {u : Uuid} {input : FileService.CreateUploadUrlInput} {p' : FileService.CreateUploadUrl} {i : Nat} {t : Task}
    (hm : TaskMoves cfg s a i t (.createUploadUrl u input p')) :
    ∃ p, t = .createUploadUrl u input p ∧ ReserveMoves cfg s a i u input p p' := by
  cases hm with
  | waits _ hw => exact ⟨p', rfl, .waits p' hw⟩
  | @createUploadUrl _ _ p _ aw r pick hn hr he =>
    refine ⟨p, rfl, ?_⟩
    cases p with
    | create key =>
      cases hn
      cases r with
      | error e => exact he ▸ .throws _ e
      | ok file =>
        obtain ⟨ch, ha, hx⟩ := hr.of_ok
        exact he ▸ .creates pick ch ha key file hx
    | expiresAt file =>
      cases hn
      cases r with
      | error e => exact he ▸ .throws _ e
      | ok now => exact he ▸ .dates file now
    | presign file policy =>
      cases hn
      cases r with
      | error e => exact he ▸ .throws _ e
      | ok v => exact he ▸ .signs file policy
    | returned x => cases hn
    | threw e => cases hn

/-- A request of `createUploadUrl` does not start past its insert. -/
theorem reserve_spawns {u : Uuid} {input : FileService.CreateUploadUrlInput} {p : FileService.CreateUploadUrl}
    (h : Spawns cfg s a (.createUploadUrl u input p)) : (∃ e, p = .threw e) ∨ ∃ key, p = .create key := by
  cases h with
  | createUploadUrl random _ _ hp => exact hp ▸ createUploadUrl_start_cases cfg u input random

/-- The moves of a confirmation. -/
inductive ConfirmMoves (s : System) (a : Action) (i : Nat) (u f : Uuid) :
    FileService.ConfirmUpload → FileService.ConfirmUpload → Prop where
  | waits (p : FileService.ConfirmUpload) (hw : a.actor ≠ some i) : ConfirmMoves s a i u f p p
  | throws (p : FileService.ConfirmUpload) (e : Err) (hp : ∀ e, p ≠ .threw e) : ConfirmMoves s a i u f p (.threw e)
  | reads (pick : Nat) (ch : Choice) (ha : a = .exec i pick ch) (file : FileRow) (hf : file ∈ s.world.db.files) (hid : file.id = f)
      (hu : file.userId = u) (hp : file.status = .pending) : ConfirmMoves s a i u f .findById (.statObject file)
  | repeats (pick : Nat) (ch : Choice) (ha : a = .exec i pick ch) (file : FileRow) (hf : file ∈ s.world.db.files)
      (hid : file.id = f) (hp : file.status = .ready) : ConfirmMoves s a i u f .findById (.returned file)
  | checks (pick : Nat) (ch : Choice) (ha : a = .exec i pick ch) (file : FileRow) (object : StoredObject)
      (ho : s.world.bucket file.storagePath = some object) (hs : (object.size : Int) = file.size) :
      ConfirmMoves s a i u f (.statObject file) (.markReady file)
  | confirms (pick : Nat) (ch : Choice) (ha : a = .exec i pick ch) (file updated : FileRow)
      (hr : (FileRepository.markReady s.world.db s.world.now u f).1 = some updated) :
      ConfirmMoves s a i u f (.markReady file) (.returned updated)

/-- A confirmation moves so. -/
theorem confirm_moves {u f : Uuid} {p' : FileService.ConfirmUpload} {i : Nat} {t : Task}
    (hm : TaskMoves cfg s a i t (.confirmUpload u f p')) : ∃ p, t = .confirmUpload u f p ∧ ConfirmMoves s a i u f p p' := by
  cases hm with
  | waits _ hw => exact ⟨p', rfl, .waits p' hw⟩
  | @confirmUpload _ _ p _ aw r pick hn hr he =>
    refine ⟨p, rfl, ?_⟩
    have hp : ∀ e, p ≠ .threw e := by
      rintro e rfl
      cases hn
    cases p with
    | findById =>
      cases hn
      cases r with
      | error e => exact he ▸ .throws _ e hp
      | ok v =>
        cases v with
        | none => exact he ▸ .throws _ _ hp
        | some file =>
          obtain ⟨ch, ha, hx⟩ := hr.of_ok
          obtain ⟨hmem, hid, hu⟩ := findFile_some (Except.ok.inj hx)
          dsimp only at he
          split at he
          · rename_i hready
            exact he ▸ .repeats pick ch ha file hmem hid hready
          · split at he
            · exact he ▸ .throws _ _ hp
            · rename_i hpend
              exact he ▸ .reads pick ch ha file hmem hid hu (Decidable.not_not.1 hpend)
    | statObject file =>
      cases hn
      cases r with
      | error e => exact he ▸ .throws _ _ hp
      | ok object =>
        dsimp only at he
        split at he
        · exact he ▸ .throws _ _ hp
        · rename_i hsize
          obtain ⟨ch, ha, hx⟩ := hr.of_ok
          have hobject : s.world.bucket file.storagePath = some object := by
            simp only [Call.exec] at hx
            split at hx
            · cases hx
            · cases hx
              assumption
          exact he ▸ .checks pick ch ha file object hobject (Decidable.not_not.1 hsize)
    | markReady file =>
      cases hn
      cases r with
      | error e => exact he ▸ .throws _ e hp
      | ok v =>
        cases v with
        | none => exact he ▸ .throws _ _ hp
        | some updated =>
          obtain ⟨ch, ha, hx⟩ := hr.of_ok
          exact he ▸ .confirms pick ch ha file updated (Except.ok.inj hx)
    | returned x => cases hn
    | threw e => cases hn

/-- What a confirmation becomes. -/
theorem confirm_forward {u f : Uuid} {p : FileService.ConfirmUpload} {i : Nat} (h : Stepped cfg s a s')
    (hi : s.tasks[i]? = some (.confirmUpload u f p)) :
    ∃ p', s'.tasks[i]? = some (.confirmUpload u f p') ∧ ConfirmMoves s a i u f p p' := by
  obtain ⟨t', ht', hm⟩ := task_forward h hi
  have hkind : ∃ p', t' = .confirmUpload u f p' := by cases hm <;> exact ⟨_, rfl⟩
  obtain ⟨p', rfl⟩ := hkind
  obtain ⟨p₀, he, hmv⟩ := confirm_moves hm
  cases he
  exact ⟨p', ht', hmv⟩

/-- A step adds to the rows seen only the row it inserts. -/
theorem seen_back (h : Stepped cfg s a s') {file' : FileRow} (hs : Seen s' file') :
    (∃ file, Seen s file ∧ SameFile file file') ∨ Inserted s s' a file' := by
  cases hs with
  | row hf =>
    rcases files_step h hf with hf | ⟨i, t, ch, e, hw, ⟨file, hf, hwr⟩ | ⟨data, rfl, rfl, hn, hi, hx⟩⟩
    · exact Or.inl ⟨file', .row hf, .refl file'⟩
    · exact Or.inl ⟨file, .row hf, hwr.same_file⟩
    · exact Or.inr ⟨i, t, ch, data, hw, hx, rfl, hn, hi, hf⟩
  | created i u input hi =>
    rcases task_back h hi with ⟨t, ht, hm⟩ | ⟨-, hsp⟩
    · obtain ⟨p, rfl, hmv⟩ := reserve_moves hm
      cases hmv with
      | waits => exact Or.inl ⟨file', .created i u input ht, .refl file'⟩
      | creates pick ch ha key _ hx =>
        subst ha
        have hw : s'.world = ((Call.createFile ⟨u, input.filename, input.mimeType, input.size, key, .pending⟩).exec ch s.world).2 :=
          world_of_exec h ht rfl
        refine Or.inr ⟨i, _, ch, _, ⟨⟨pick, rfl⟩, ht, cfg, pick, _, rfl, rfl⟩, hx, ?_⟩
        rcases createFile_cases ch s.world ⟨u, input.filename, input.mimeType, input.size, key, .pending⟩ with
          ⟨e, he⟩ | ⟨files, hn, hmem, he⟩ <;> rw [he] at hx hw <;> cases hx
        exact ⟨rfl, hn, by rw [hw]; exact List.mem_cons_self, by rw [hw]; exact (hmem _).2 (Or.inr rfl)⟩
    · rcases reserve_spawns hsp with ⟨e, he⟩ | ⟨key, he⟩ <;> cases he
  | presigned i u input policy hi =>
    rcases task_back h hi with ⟨t, ht, hm⟩ | ⟨-, hsp⟩
    · obtain ⟨p, rfl, hmv⟩ := reserve_moves hm
      cases hmv with
      | waits => exact Or.inl ⟨file', .presigned i u input policy ht, .refl file'⟩
      | dates => exact Or.inl ⟨file', .created i u input ht, .refl file'⟩
    · rcases reserve_spawns hsp with ⟨e, he⟩ | ⟨key, he⟩ <;> cases he
  | confirmed i u f p' hi hp =>
    rcases task_back h hi with ⟨t, ht, hm⟩ | ⟨-, hsp⟩
    · obtain ⟨p, rfl, hmv⟩ := confirm_moves hm
      cases hmv with
      | waits => exact Or.inl ⟨file', .confirmed i u f p' ht hp, .refl file'⟩
      | throws => rcases hp with hp | hp | hp <;> cases hp
      | reads _ _ _ file hf | repeats _ _ _ file hf =>
        rcases hp with hp | hp | hp <;> cases hp
        exact Or.inl ⟨file', .row hf, .refl file'⟩
      | checks =>
        rcases hp with hp | hp | hp <;> cases hp
        exact Or.inl ⟨file', .confirmed i u f _ ht (Or.inl rfl), .refl file'⟩
      | confirms _ _ _ file updated hr =>
        rcases hp with hp | hp | hp <;> cases hp
        obtain ⟨old, hold, -, -, -, rfl⟩ := markReady_some hr
        exact Or.inl ⟨old, .row hold, rfl, rfl, rfl, rfl⟩
    · cases hsp
      rcases hp with hp | hp | hp <;> cases hp
  | item i kind p' hi hf =>
    rcases task_back h hi with ⟨t, ht, hm⟩ | ⟨-, hsp⟩
    · obtain ⟨p, rfl, hold | ⟨before, pick, ch, -, -, hb⟩⟩ := sweep_items hm hf
      · exact Or.inl ⟨file', .item i kind p ht hold, .refl file'⟩
      · exact Or.inl ⟨file', .row (mem_batch hb), .refl file'⟩
    · cases hsp
      cases hf

/-! ## Registered paths -/

/-- `known` is what is known of the paths of the rows seen, and rows whose paths are alike (`same`) are one file. -/
structure Registered (known : System → String → Prop) (same : String → String → Prop) (s : System) : Prop where
  known : ∀ {x}, Seen s x → known s x.storagePath
  unique : ∀ {x y}, Seen s x → Seen s y → same x.storagePath y.storagePath → x.id = y.id

/-- A step keeps the rows seen registered, when what is known stays known, and a row is inserted under a path that becomes known
and that is like no known path. -/
theorem registered_step {known : System → String → Prop} {same : String → String → Prop} (h : Stepped cfg s a s')
    (hsymm : ∀ {p q}, same p q → same q p) (hmono : ∀ {p}, known s p → known s' p)
    (hins : ∀ {x}, Inserted s s' a x → known s' x.storagePath ∧ ∀ {p}, known s p → ¬ same p x.storagePath)
    (hI : Registered known same s) : Registered known same s' where
  known {x} hx := by
    rcases seen_back h hx with ⟨x₀, hx₀, hs⟩ | hx
    · exact hs.storagePath ▸ hmono (hI.known hx₀)
    · exact (hins hx).1
  unique {x y} hx hy he := by
    rcases seen_back h hx with ⟨x₀, hx₀, hs⟩ | hx
    · rcases seen_back h hy with ⟨y₀, hy₀, hs'⟩ | hy
      · rw [← hs.id, ← hs'.id]
        exact hI.unique hx₀ hy₀ (by rw [hs.storagePath, hs'.storagePath]; exact he)
      · exact absurd he ((hins hy).2 (hs.storagePath ▸ hI.known hx₀))
    · rcases seen_back h hy with ⟨y₀, hy₀, hs'⟩ | hy
      · exact absurd (hsymm he) ((hins hx).2 (hs'.storagePath ▸ hI.known hy₀))
      · exact hx.unique hy

/-- In the empty system no row is seen. -/
theorem not_seen_empty (x : FileRow) : ¬ Seen System.empty x := by
  rintro (h | ⟨_, _, _, h⟩ | ⟨_, _, _, _, h⟩ | ⟨_, _, _, _, h⟩ | ⟨_, _, _, h⟩)
  · exact Table.not_mem_empty x h
  all_goals cases h

/-- The ids of the rows seen have been issued. -/
def SeenIssued (s : System) : Prop := ∀ x, Seen s x → x.id ∈ s.world.issued

/-- In every reachable state. -/
theorem seenIssued (h : (platform cfg).Reach ok s) : SeenIssued s := by
  refine h.invariant ?_ ?_
  · rintro s rfl x hx
    exact absurd hx (not_seen_empty x)
  · intro s a s' _ hI _ hs x hx
    rcases seen_back (step_cases hs) hx with ⟨x₀, hx₀, hsame⟩ | ⟨i, t, ch, data, -, -, rfl, -, hi, -⟩
    · exact hsame.id ▸ issued_step (step_cases hs) (hI x₀ hx₀)
    · exact hi

/-- Rows seen with the same id are the same file. -/
def SeenAgree (s : System) : Prop := ∀ x y, Seen s x → Seen s y → x.id = y.id → SameFile x y

/-- A step keeps the rows seen in agreement: the row it inserts has an id no row seen before has. -/
theorem seenAgree_step (hr : (platform cfg).Reach ok s) (h : Stepped cfg s a s') (hI : SeenAgree s) : SeenAgree s' := by
  intro x y hx hy he
  have hne {x y : FileRow} (hx : Inserted s s' a x) (hy : Seen s y) : x.id ≠ y.id := by
    obtain ⟨i, t, ch, data, -, -, rfl, hn, -, -⟩ := hx
    intro he
    have hid : ch.id = y.id := he
    exact hn (hid ▸ seenIssued hr y hy)
  rcases seen_back h hx with ⟨x₀, hx₀, hsx⟩ | hx
  · rcases seen_back h hy with ⟨y₀, hy₀, hsy⟩ | hy
    · have h₀ := hI x₀ y₀ hx₀ hy₀ (by rw [hsx.id, hsy.id, he])
      exact (hsx.symm.trans h₀).trans hsy
    · exact absurd (hsx.id.trans he).symm (hne hy hx₀)
  · rcases seen_back h hy with ⟨y₀, hy₀, hsy⟩ | hy
    · exact absurd (he.trans hsy.id.symm) (hne hx hy₀)
    · obtain ⟨_, _, _, _, -, -, -, -, -, hx'⟩ := hx
      obtain ⟨_, _, _, _, -, -, -, -, -, hy'⟩ := hy
      rw [s'.world.db.files.eq_of_key_eq hx' hy' he]
      exact .refl y

/-- In every reachable state. -/
theorem seenAgree (h : (platform cfg).Reach ok s) : SeenAgree s := by
  refine h.invariant ?_ (fun s a s' hr hI _ hs => seenAgree_step hr (step_cases hs) hI)
  rintro s rfl x y hx
  exact absurd hx (not_seen_empty x)

/-! ## The ids of a confirmation -/

/-- A confirmation holds a row of its file. -/
def ConfirmsOwn (s : System) : Prop :=
  ∀ (i : Nat) u f p file, s.tasks[i]? = some (.confirmUpload u f p) →
    (p = .statObject file ∨ p = .markReady file ∨ p = .returned file) → file.id = f

/-- A step keeps the rows of the confirmations. -/
theorem confirmsOwn_step (h : Stepped cfg s a s') (hI : ConfirmsOwn s) : ConfirmsOwn s' := by
  intro i u f p' file hi hp
  rcases task_back h hi with ⟨t, ht, hm⟩ | ⟨-, hsp⟩
  · obtain ⟨p, rfl, hmv⟩ := confirm_moves hm
    cases hmv with
    | waits => exact hI i u f p' file ht hp
    | throws => rcases hp with hp | hp | hp <;> cases hp
    | reads _ _ _ _ _ hid | repeats _ _ _ _ _ hid =>
      rcases hp with hp | hp | hp <;> cases hp
      exact hid
    | checks =>
      rcases hp with hp | hp | hp <;> cases hp
      exact hI i u f _ file ht (Or.inl rfl)
    | confirms _ _ _ _ _ hr =>
      rcases hp with hp | hp | hp <;> cases hp
      obtain ⟨old, -, hid, -, -, rfl⟩ := markReady_some hr
      exact hid
  · cases hsp
    rcases hp with hp | hp | hp <;> cases hp

/-- In every reachable state. -/
theorem confirmsOwn (h : (platform cfg).Reach ok s) : ConfirmsOwn s := by
  refine h.invariant ?_ (fun s a s' _ hI _ hs => confirmsOwn_step (step_cases hs) hI)
  rintro s rfl i u f p file hi
  cases hi

end FileProcessing
