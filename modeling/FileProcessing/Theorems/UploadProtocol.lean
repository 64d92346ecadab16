import FileProcessing.Theorems.ConfirmIdempotent
import FileProcessing.Theorems.RowHistory
import FileProcessing.Web.Uploads

/-!
# The upload protocol

A browser, the API and the storage take part in an upload, and nothing but the id and the policy it was handed ties the three requests of
`uploadFile` together. Whatever interleaves, the file it returns is the one it was called with, two uploads never meet in one row or
one object, and an upload that is left alone does not fail.
-/

namespace FileProcessing

open FileService

variable {cfg : Config} {ok : System → Action → Prop} {s s' : System} {a : Action} {i j k : Nat} {u : Uuid}
  {input : CreateUploadUrlInput} {file x y : FileRow}

/-! ## The statement -/

/-- The row is the one the request of the user asked for. -/
structure ReservedFor (u : Uuid) (input : CreateUploadUrlInput) (file : FileRow) : Prop where
  userId : file.userId = u
  originalName : file.originalName = input.filename
  mimeType : file.mimeType = input.mimeType
  size : file.size = input.size
  path : ∃ random, file.storagePath = uploadKey u random (extname input.filename)

/-- The id of the row a call has reserved. -/
def Task.reservedId : Task → Option Uuid
  | .createUploadUrl _ _ (.expiresAt file) | .createUploadUrl _ _ (.presign file _) => some file.id
  | .createUploadUrl _ _ (.returned result) => some result.fileId
  | _ => none

/-- The id of the row an upload has. -/
def Upload.fileId (s : System) (up : Upload) : Option Uuid :=
  match up.p with
  | .requestUploadUrl k => (s.tasks[k]?).bind Task.reservedId
  | .post fileId _ | .posted fileId | .confirmUpload fileId _ => some fileId
  | .returned file => some file.id
  | .threw => none

/-- The schema and the service take the file. -/
def Uploadable (cfg : Config) (file : BrowserFile) : Prop := file.admitted = true ∧ file.size ≤ cfg.maxFileSizeBytes

/-- The step of the platform spares the upload: it fails no call of its requests, its insert is of a new id and of values the columns
hold, and it neither deletes nor sweeps the file. -/
structure Spares (s : System) (up : Upload) (a : Action) : Prop where
  answers : ∀ k pick e, up.p = .requestUploadUrl k → a ≠ .reject k pick e
  inserts : ∀ k pick ch key, up.p = .requestUploadUrl k → a = .exec k pick ch →
    s.tasks[k]? = some (.createUploadUrl up.userId up.file.params (.create key)) → ch.id ∉ s.world.issued ∧
      FileRepository.Kept (FileRepository.newRow s.world.now ch.id
        ⟨up.userId, up.file.params.filename, up.file.params.mimeType, up.file.params.size, key, .pending⟩)
  removes : ∀ row : FileRow, up.fileId s = some row.id → row.userId = up.userId → Undisturbed row s a

/-- No confirmation of the file is under way but the upload's own. -/
def ConfirmsAlone (s : System) (up : Upload) : Prop :=
  ∀ fileId (j : Nat) u p, up.fileId s = some fileId → s.tasks[j]? = some (.confirmUpload u fileId p) →
    up.p = .confirmUpload fileId j ∨ Ended p

/-- The step leaves upload `i` alone. -/
structure LeftAlone (i : Nat) (v : Uploads) (b : UploadAction) : Prop where
  told : b ≠ .fail i
  token : ∀ up sender random fileId, v.uploads[i]? = some up → b = .answer i sender random → up.p = .posted fileId → sender = up.userId
  spared : ∀ up a, v.uploads[i]? = some up → b = .platform a → Spares v.system up a
  alone : ∀ up, v.uploads[i]? = some up → ConfirmsAlone v.system up

/-- The uploads, in every run: what `uploadFile` returns is ready and is the file it was called with; no two uploads have one row; a post
stores its file under the path of its own row, which is no other file's; and an upload that is left alone does not fail, and when it has
returned its row is ready and has its object. -/
structure UploadsDeliver (cfg : Config) : Prop where
  returned : ∀ v, (uploads cfg).Reach Lts.Free v → ∀ (i : Nat) up file, v.uploads[i]? = some up → up.p = .returned file →
    ReservedFor up.userId up.file.params file ∧ file.status = .ready
  apart : ∀ v, (uploads cfg).Reach Lts.Free v → ∀ (i j : Nat) up up' id, v.uploads[i]? = some up → v.uploads[j]? = some up' →
    up.fileId v.system = some id → up'.fileId v.system = some id → i = j
  posts : ∀ v v' i up, (uploads cfg).Reach Lts.Free v → (uploads cfg).step v (.post i) = some v' → v.uploads[i]? = some up →
    ∃ fileId formFields, up.p = .post fileId formFields ∧ v'.system.world.bucket formFields.key = some ⟨up.file.size⟩ ∧
      ∀ row ∈ v'.system.world.db.files, (row.storagePath = formFields.key ↔ row.id = fileId) ∧
        (row.id = fileId → ReservedFor up.userId up.file.params row)
  completes : ∀ i v, (uploads cfg).Reach (LeftAlone i) v → ∀ up, v.uploads[i]? = some up → Uploadable cfg up.file →
    up.p ≠ .threw ∧ ∀ file, up.p = .returned file → ∃ row ∈ v.system.world.db.files, row.id = file.id ∧ row.status = .ready ∧
      ∃ object, v.system.world.bucket row.storagePath = some object ∧ object.size = up.file.size

/-! ## A reservation -/

/-- A later row is still the one that was asked for. -/
theorem ReservedFor.later (h : ReservedFor u input x) (hl : x.Later y) : ReservedFor u input y where
  userId := hl.userId.trans h.userId
  originalName := hl.originalName.trans h.originalName
  mimeType := hl.mimeType.trans h.mimeType
  size := hl.size.trans h.size
  path := by
    obtain ⟨random, hp⟩ := h.path
    exact ⟨random, hl.storagePath.trans hp⟩

/-- The row was inserted for the request: what the table has under its id is what became of it, and no other file has its path. -/
structure HasReserved (s : System) (u : Uuid) (input : CreateUploadUrlInput) (x : FileRow) : Prop where
  reserved : ReservedFor u input x
  issued : x.id ∈ s.world.issued
  rows : ∀ y ∈ s.world.db.files, y.id = x.id → x.Later y
  path : ∀ y ∈ s.world.db.files, y.storagePath = x.storagePath → y.id = x.id
  consumed : ∃ r, IsUploadKey x.storagePath r ∧ Consumed s r

/-- A reservation lasts. -/
theorem hasReserved_step (hr : (platform cfg).Reach ok s) (h : Stepped cfg s a s') (hI : HasReserved s u input x) :
    HasReserved s' u input x := by
  obtain ⟨r, hkey, hc⟩ := hI.consumed
  refine ⟨hI.reserved, issued_step h hI.issued, fun y hy hid => ?_, fun y hy hp => ?_, ⟨r, hkey, consumed_step h hc⟩⟩
  · obtain ⟨old, hold, hid', hl⟩ := file_later h hy (hid ▸ hI.issued)
    exact (hI.rows old hold (hid'.trans hid)).trans hl
  · rcases files_step h hy with hold | ⟨i, t, ch, e, hw, ⟨old, hold, hf⟩ | ⟨data, rfl, rfl, -⟩⟩
    · exact hI.path y hold hp
    · obtain ⟨hid, -, hpath, -⟩ := hf.core
      exact hid.trans (hI.path old hold (hpath.symm.trans hp))
    · have hp' : data.storagePath = x.storagePath := hp
      rcases file_writer hr hw with ⟨v, input', key, rfl, rfl⟩ | ⟨k, data', p, rfl, hg⟩
      · obtain ⟨r', hkey', -, hno⟩ := upload_inserted hr h hw
        have he : key = x.storagePath := hp'
        exact absurd (hkey'.inj (he ▸ hkey) ▸ hc) hno
      · have hout := outputKey_of_storing hg
        rw [hp'] at hout
        exact absurd hout hkey.not_output

/-- The insert of an upload is a reservation, under a new id. -/
theorem hasReserved_insert (hr : (platform cfg).Reach ok s) {pick : Nat} {ch : Choice} {key : String}
    (h : Stepped cfg s (.exec i pick ch) s') (ht : s.tasks[i]? = some (.createUploadUrl u input (.create key)))
    (hkey : ∃ random, key = uploadKey u random (extname input.filename))
    (hx : ((Call.createFile ⟨u, input.filename, input.mimeType, input.size, key, .pending⟩).exec ch s.world).1 = .ok file) :
    HasReserved s' u input file ∧ file.id ∉ s.world.issued ∧ file ∈ s'.world.db.files ∧ file.status = .pending := by
  have hw : Wrote s (.exec i pick ch) i (.createUploadUrl u input (.create key)) ch
      (.createFile ⟨u, input.filename, input.mimeType, input.size, key, .pending⟩) := ⟨⟨pick, rfl⟩, ht, cfg, pick, _, rfl, rfl⟩
  have hworld := world_of_exec h ht rfl
  obtain ⟨r, hup, hc, -⟩ := upload_inserted hr h hw
  dsimp only [Await.map] at hworld
  rcases createFile_cases ch s.world ⟨u, input.filename, input.mimeType, input.size, key, .pending⟩ with
    ⟨e, he⟩ | ⟨files, hfresh, hfiles, he⟩
  · rw [he] at hx
    cases hx
  rw [he] at hx hworld
  cases hx
  have hmem (y : FileRow) : y ∈ s'.world.db.files ↔ y ∈ s.world.db.files ∨
      y = FileRepository.newRow s.world.now ch.id ⟨u, input.filename, input.mimeType, input.size, key, .pending⟩ := by
    rw [hworld]
    exact hfiles y
  refine ⟨⟨⟨rfl, rfl, rfl, rfl, hkey⟩, ?_, fun y hy hid => ?_, fun y hy hp => ?_, ⟨r, hup, hc⟩⟩, hfresh, (hmem _).2 (Or.inr rfl),
    rfl⟩
  · rw [hworld]
    exact List.mem_cons_self
  · rcases (hmem y).1 hy with hold | rfl
    · have hid' : y.id = ch.id := hid
      exact absurd (hid' ▸ seenIssued hr y (.row hold)) hfresh
    · exact .refl _
  · rcases (hmem y).1 hy with hold | rfl
    · exfalso
      rcases (uploadsRegistered hr).known (.row hold) with ⟨r', hkey', hc'⟩ | ⟨j, hout⟩
      · have hp' : y.storagePath = key := hp
        obtain ⟨r₀, hkey₀, -, hno⟩ := upload_inserted hr h hw
        exact hno (hkey₀.inj (hp' ▸ hkey') ▸ hc')
      · have hp' : y.storagePath = key := hp
        exact hup.not_output (hp' ▸ hout)
    · rfl

/-- What a call that reserves an upload holds. -/
def ReservesAt (s : System) (u : Uuid) (input : CreateUploadUrlInput) : CreateUploadUrl → Prop
  | .create key => ∃ random, key = uploadKey u random (extname input.filename)
  | .expiresAt file => HasReserved s u input file
  | .presign file policy => HasReserved s u input file ∧ policy.key = file.storagePath
  | .returned result => ∃ x, x.id = result.fileId ∧ HasReserved s u input x ∧ result.formFields.key = x.storagePath
  | .threw _ => True

/-- The reservations of a state. -/
structure Reservations (s : System) : Prop where
  holds : ∀ (i : Nat) u input p, s.tasks[i]? = some (.createUploadUrl u input p) → ReservesAt s u input p
  apart : ∀ (i j : Nat) id, (s.tasks[i]?).bind Task.reservedId = some id → (s.tasks[j]?).bind Task.reservedId = some id → i = j

theorem ReservesAt.step (hr : (platform cfg).Reach ok s) (h : Stepped cfg s a s') {p : CreateUploadUrl} (hI : ReservesAt s u input p) :
    ReservesAt s' u input p := by
  cases p with
  | create key => exact hI
  | expiresAt file => exact hasReserved_step hr h hI
  | presign file policy => exact ⟨hasReserved_step hr h hI.1, hI.2⟩
  | returned result =>
    obtain ⟨x, hid, hx, hkey⟩ := hI
    exact ⟨x, hid, hasReserved_step hr h hx, hkey⟩
  | threw e => trivial

/-- A call that moves goes on holding what it has reserved. -/
theorem reservesAt_moves (hr : (platform cfg).Reach ok s) (h : Stepped cfg s a s') {p p' : CreateUploadUrl}
    (ht : s.tasks[i]? = some (.createUploadUrl u input p)) (hm : ReserveMoves cfg s a i u input p p') (hI : ReservesAt s u input p) :
    ReservesAt s' u input p' := by
  cases hm with
  | waits => exact hI.step hr h
  | throws => trivial
  | creates pick ch ha key file hx =>
    subst ha
    exact (hasReserved_insert hr h ht hI hx).1
  | dates file now => exact ⟨hasReserved_step hr h hI, rfl⟩
  | signs file policy => exact ⟨file, rfl, hasReserved_step hr h hI.1, hI.2⟩

/-- A task that holds an id held it before, or has just inserted its row. -/
theorem reservedId_back (h : Stepped cfg s a s') {id : Uuid} (hi : (s'.tasks[i]?).bind Task.reservedId = some id) :
    (s.tasks[i]?).bind Task.reservedId = some id ∨ id ∉ s.world.issued ∧ a.actor = some i := by
  obtain ⟨t', ht', hid⟩ := Option.bind_eq_some_iff.1 hi
  obtain ⟨u, input, p', rfl⟩ : ∃ u input p, t' = .createUploadUrl u input p := by
    cases t' <;> first | exact ⟨_, _, _, rfl⟩ | cases hid
  rcases task_back h ht' with ⟨t, ht, hm⟩ | ⟨-, hsp⟩
  · obtain ⟨p, rfl, hmv⟩ := reserve_moves hm
    cases hmv with
    | waits =>
      refine Or.inl ?_
      rw [ht]
      exact hid
    | throws => cases hid
    | creates pick ch ha key file hx =>
      refine Or.inr ⟨?_, by rw [ha]; rfl⟩
      rcases createFile_cases ch s.world ⟨u, input.filename, input.mimeType, input.size, key, .pending⟩ with
        ⟨e, he⟩ | ⟨files, hfresh, -, he⟩
      · rw [he] at hx
        cases hx
      · rw [he] at hx
        cases hx
        cases hid
        exact hfresh
    | dates | signs =>
      refine Or.inl ?_
      rw [ht]
      exact hid
  · rcases reserve_spawns hsp with ⟨e, rfl⟩ | ⟨key, rfl⟩ <;> cases hid

theorem reservedId_issued (hR : Reservations s) {id : Uuid} (hi : (s.tasks[i]?).bind Task.reservedId = some id) :
    id ∈ s.world.issued := by
  obtain ⟨t, ht, hid⟩ := Option.bind_eq_some_iff.1 hi
  obtain ⟨u, input, p, rfl⟩ : ∃ u input p, t = .createUploadUrl u input p := by
    cases t <;> first | exact ⟨_, _, _, rfl⟩ | cases hid
  have hold := hR.holds i u input p ht
  cases p with
  | create | threw => cases hid
  | expiresAt file =>
    cases hid
    exact hold.issued
  | presign file policy =>
    cases hid
    exact hold.1.issued
  | returned result =>
    cases hid
    obtain ⟨x, hx, hres, -⟩ := hold
    exact hx ▸ hres.issued

theorem reservations_step (hr : (platform cfg).Reach ok s) (h : Stepped cfg s a s') (hI : Reservations s) : Reservations s' where
  holds i u input p' hi := by
    rcases task_back h hi with ⟨t, ht, hm⟩ | ⟨-, hsp⟩
    · obtain ⟨p, rfl, hmv⟩ := reserve_moves hm
      exact reservesAt_moves hr h ht hmv (hI.holds i u input p ht)
    · cases hsp with
      | createUploadUrl random _ _ hp =>
        rcases createUploadUrl_start_cases cfg u input random with ⟨e, he⟩ | ⟨key, he⟩
        · rw [hp, he]
          trivial
        · rw [hp, he]
          exact ⟨random, createUploadUrl_start he⟩
  apart i j id hi hj := by
    rcases reservedId_back h hi with hi | ⟨hnew, hacts⟩ <;> rcases reservedId_back h hj with hj | ⟨hnew', hacts'⟩
    · exact hI.apart i j id hi hj
    · exact absurd (reservedId_issued hI hi) hnew'
    · exact absurd (reservedId_issued hI hj) hnew
    · exact Option.some.inj (hacts.symm.trans hacts')

/-- In every reachable state. -/
theorem reservations (h : (platform cfg).Reach ok s) : Reservations s := by
  refine h.invariant ?_ (fun s a s' hr hI _ hs => reservations_step hr (step_cases hs) hI)
  rintro s rfl
  exact ⟨fun i u input p hi => (nomatch hi), fun i j id hi => (nomatch hi)⟩

/-! ## A step of the uploads -/

section Uploads

variable {okU : Uploads → UploadAction → Prop} {v v' : Uploads} {b : UploadAction} {up up' : Upload}

/-- What becomes of upload `i` in a step that is its own. -/
inductive UploadMoves (cfg : Config) (s : System) (b : UploadAction) (s' : System) (i : Nat) (up : Upload) : UploadFile → Prop where
  | posts (fileId : Uuid) (formFields : PostPolicy) (hb : b = .post i) (hp : up.p = .post fileId formFields)
      (hs : Stepped cfg s (.upload formFields up.file.size) s') : UploadMoves cfg s b s' i up (.posted fileId)
  | reserved (k : Nat) (task : Task) (p : UploadFile) (hp : up.p = .requestUploadUrl k) (hs : s' = s) (ht : s.tasks[k]? = some task)
      (hr : UploadFile.ofReservation task = some p) : UploadMoves cfg s b s' i up p
  | confirms (fileId sender random : Uuid) (hb : b = .answer i sender random) (hp : up.p = .posted fileId)
      (hs : Stepped cfg s (.request (.confirmUpload sender fileId) random) s') :
      UploadMoves cfg s b s' i up (.confirmUpload fileId s.tasks.length)
  | confirmed (fileId : Uuid) (k : Nat) (task : Task) (p : UploadFile) (hp : up.p = .confirmUpload fileId k) (hs : s' = s)
      (ht : s.tasks[k]? = some task) (hr : UploadFile.ofConfirmation task = some p) : UploadMoves cfg s b s' i up p
  | fails (hb : b = .fail i) (hs : s' = s) : UploadMoves cfg s b s' i up .threw

/-- A call of `uploadFile` begins. -/
inductive UploadBegins (cfg : Config) (s : System) (s' : System) : Upload → Prop where
  | call (userId : Uuid) (file : BrowserFile) (random : Uuid) (admitted : file.admitted = true)
      (hs : Stepped cfg s (.request (.createUploadUrl userId file.params) random) s') :
      UploadBegins cfg s s' ⟨userId, file, .requestUploadUrl s.tasks.length⟩
  | refused (userId : Uuid) (file : BrowserFile) (admitted : file.admitted = false) (hs : s' = s) :
      UploadBegins cfg s s' ⟨userId, file, .threw⟩

/-- The step is one a client of the platform makes. -/
inductive OfClient : Action → Prop where
  | request (r : Request) (random : Uuid) : OfClient (.request r random)
  | upload (policy : PostPolicy) (size : Nat) : OfClient (.upload policy size)

/-- The platform makes a step, or none. -/
def PlatformMoves (cfg : Config) (b : UploadAction) (s s' : System) : Prop :=
  s' = s ∨ ∃ a, (platform cfg).step s a = some s' ∧ (b = .platform a ∨ OfClient a)

/-- Where an upload of the list comes from. -/
inductive UploadBack (cfg : Config) (v : Uploads) (b : UploadAction) (v' : Uploads) (i : Nat) (up' : Upload) : Prop where
  | waits (hi : v.uploads[i]? = some up')
  | moves (up : Upload) (p' : UploadFile) (hi : v.uploads[i]? = some up) (he : up' = { up with p := p' })
      (hm : UploadMoves cfg v.system b v'.system i up p')
  | begins (hi : i = v.uploads.length) (hb : UploadBegins cfg v.system v'.system up')

/-- Upload `i` has been put in another place. -/
theorem back_put {system : System} {i j : Nat} {p' : UploadFile} (hi : v.uploads[i]? = some up)
    (hm : UploadMoves cfg v.system b system i up p') (hj : (v.put system i up p').uploads[j]? = some up') :
    UploadBack cfg v b (v.put system i up p') j up' := by
  simp only [Uploads.put] at hj
  by_cases hij : i = j
  · subst hij
    rw [List.getElem?_set_self (List.getElem?_eq_some_iff.1 hi).1] at hj
    exact .moves up p' hi (Option.some.inj hj).symm hm
  · rw [List.getElem?_set_ne hij] at hj
    exact .waits hj

/-- An upload has been added. -/
theorem back_added {system : System} {j : Nat} {new : Upload} (hb : UploadBegins cfg v.system system new)
    (hj : (v.uploads ++ [new])[j]? = some up') : UploadBack cfg v b ⟨system, v.uploads ++ [new]⟩ j up' := by
  by_cases hlt : j < v.uploads.length
  · rw [List.getElem?_append_left hlt] at hj
    exact .waits hj
  · have hlen : j < (v.uploads ++ [new]).length := (List.getElem?_eq_some_iff.1 hj).1
    rw [List.length_append, List.length_singleton] at hlen
    rw [List.getElem?_append_right (by omega)] at hj
    cases List.mem_singleton.1 (List.mem_of_getElem? hj)
    exact .begins (by omega) hb

/-- A step moves the platform by one of its steps, or not at all, and each upload by one of its moves, or not at all. -/
theorem uploads_step_cases (h : (uploads cfg).step v b = some v') :
    PlatformMoves cfg b v.system v'.system ∧ ∀ (j : Nat) up', v'.uploads[j]? = some up' → UploadBack cfg v b v' j up' := by
  simp only [uploads] at h
  cases b with
  | platform a =>
    obtain ⟨system, hs, rfl⟩ := Option.map_eq_some_iff.1 h
    exact ⟨Or.inr ⟨a, hs, Or.inl rfl⟩, fun j up' hj => .waits hj⟩
  | call userId file random =>
    simp only [Uploads.step] at h
    split at h
    · rename_i hadmitted
      obtain ⟨system, hs, rfl⟩ := Option.map_eq_some_iff.1 h
      exact ⟨Or.inr ⟨Action.request (.createUploadUrl userId file.params) random, hs, Or.inr (.request _ _)⟩, fun j up' hj =>
        back_added (.call userId file random hadmitted (step_cases hs)) hj⟩
    · rename_i hadmitted
      cases h
      exact ⟨Or.inl rfl, fun j up' hj => back_added (.refused userId file (Bool.eq_false_iff.2 hadmitted) rfl) hj⟩
  | post i =>
    simp only [Uploads.step] at h
    split at h
    · rename_i userId file fileId formFields hi
      obtain ⟨system, hs, rfl⟩ := Option.map_eq_some_iff.1 h
      exact ⟨Or.inr ⟨Action.upload formFields file.size, hs, Or.inr (.upload _ _)⟩, fun j up' hj =>
        back_put hi (.posts fileId formFields rfl rfl (step_cases hs)) hj⟩
    · cases h
  | answer i sender random =>
    simp only [Uploads.step] at h
    split at h
    · rename_i userId file k hi
      obtain ⟨p, hp, rfl⟩ := Option.map_eq_some_iff.1 h
      obtain ⟨task, ht, hr⟩ := Option.bind_eq_some_iff.1 hp
      exact ⟨Or.inl rfl, fun j up' hj => back_put hi (.reserved k task p rfl rfl ht hr) hj⟩
    · rename_i userId file fileId hi
      obtain ⟨system, hs, rfl⟩ := Option.map_eq_some_iff.1 h
      exact ⟨Or.inr ⟨Action.request (.confirmUpload sender fileId) random, hs, Or.inr (.request _ _)⟩, fun j up' hj =>
        back_put hi (.confirms fileId sender random rfl rfl (step_cases hs)) hj⟩
    · rename_i userId file fileId k hi
      obtain ⟨p, hp, rfl⟩ := Option.map_eq_some_iff.1 h
      obtain ⟨task, ht, hr⟩ := Option.bind_eq_some_iff.1 hp
      exact ⟨Or.inl rfl, fun j up' hj => back_put hi (.confirmed fileId k task p rfl rfl ht hr) hj⟩
    · cases h
  | fail i =>
    simp only [Uploads.step] at h
    split at h
    · cases h
    · cases h
    · cases h
    · rename_i up _ _ hi
      cases h
      exact ⟨Or.inl rfl, fun j up' hj => back_put hi (.fails rfl rfl) hj⟩

/-- The platform under the uploads makes a run of its own. -/
theorem uploads_platform (h : (uploads cfg).Reach okU v) : (platform cfg).Reach Lts.Free v.system := by
  refine h.invariant (I := fun v => (platform cfg).Reach Lts.Free v.system) ?_ (fun v b v' _ hI _ hs => ?_)
  · rintro v rfl
    exact Lts.Reach.init rfl
  · rcases (uploads_step_cases hs).1 with he | ⟨a, hstep, -⟩
    · exact he ▸ hI
    · exact hI.step a trivial hstep

/-! ## What an upload holds -/

/-- What an upload knows of its row. -/
def Upload.Sound (s : System) (up : Upload) : Prop :=
  match up.p with
  | .requestUploadUrl k => ∃ p, s.tasks[k]? = some (.createUploadUrl up.userId up.file.params p)
  | .post fileId formFields =>
    ∃ x, x.id = fileId ∧ HasReserved s up.userId up.file.params x ∧ formFields.key = x.storagePath
  | .posted fileId => ∃ x, x.id = fileId ∧ HasReserved s up.userId up.file.params x
  | .confirmUpload fileId k => ∃ x, x.id = fileId ∧ HasReserved s up.userId up.file.params x ∧
    ∃ sender p, s.tasks[k]? = some (.confirmUpload sender fileId p) ∧
      ∀ y, p = .returned y → x.Later y ∧ y.status = .ready ∧ y.id = fileId
  | .returned y => ∃ x, x.id = y.id ∧ HasReserved s up.userId up.file.params x ∧ x.Later y ∧ y.status = .ready
  | .threw => True

/-- A confirmation that has returned, returns the row as it was then. -/
theorem confirm_returns {sender f : Uuid} {p p' : ConfirmUpload} (hx : HasReserved s u input x) (hid : x.id = f)
    (hm : ConfirmMoves s a k sender f p p')
    (hold : ∀ y, p = .returned y → x.Later y ∧ y.status = .ready ∧ y.id = f) :
    ∀ y, p' = .returned y → x.Later y ∧ y.status = .ready ∧ y.id = f := by
  intro y hy
  cases hm with
  | waits => exact hold y hy
  | throws | reads | checks => cases hy
  | repeats pick ch ha row hrow hfile hp =>
    obtain rfl := ConfirmUpload.returned.inj hy
    exact ⟨hx.rows row hrow (hfile.trans hid.symm), hp, hfile⟩
  | confirms pick ch ha row updated hupdated =>
    obtain rfl := ConfirmUpload.returned.inj hy
    obtain ⟨old, hold, hfile, -, hp, rfl⟩ := markReady_some hupdated
    have hl := hx.rows old hold (hfile.trans hid.symm)
    exact ⟨hl.trans ⟨rfl, rfl, rfl, rfl, rfl, Or.inr (Or.inr ⟨hp, rfl⟩), rfl⟩, rfl, hfile⟩

/-- The platform goes on, and an upload that waits holds what it held. -/
theorem sound_platform (hr : (platform cfg).Reach ok s) (h : Stepped cfg s a s') (hI : up.Sound s) : up.Sound s' := by
  obtain ⟨userId, file, p⟩ := up
  cases p with
  | requestUploadUrl k =>
    obtain ⟨p, ht⟩ := hI
    obtain ⟨t', ht', hm⟩ := task_forward h ht
    cases hm <;> exact ⟨_, ht'⟩
  | post fileId formFields =>
    obtain ⟨x, hid, hx, hkey⟩ := hI
    exact ⟨x, hid, hasReserved_step hr h hx, hkey⟩
  | posted fileId =>
    obtain ⟨x, hid, hx⟩ := hI
    exact ⟨x, hid, hasReserved_step hr h hx⟩
  | confirmUpload fileId k =>
    obtain ⟨x, hid, hx, sender, p, ht, hret⟩ := hI
    obtain ⟨p', ht', hm⟩ := confirm_forward h ht
    exact ⟨x, hid, hasReserved_step hr h hx, sender, p', ht', confirm_returns hx hid hm hret⟩
  | returned y =>
    obtain ⟨x, hid, hx, hl, hp⟩ := hI
    exact ⟨x, hid, hasReserved_step hr h hx, hl, hp⟩
  | threw => trivial

/-- A request that has come in is a task. -/
theorem request_task {r : Request} {random : Uuid} (h : Stepped cfg s (.request r random) s') :
    s'.tasks = s.tasks ++ [r.task cfg random] := by
  cases h with
  | request => rfl

/-- An upload that goes on holds what it was handed. -/
theorem sound_moves (hr : (platform cfg).Reach ok s) {p' : UploadFile} (hm : UploadMoves cfg s b s' i up p') (hI : up.Sound s) :
    ({ up with p := p' } : Upload).Sound s' := by
  obtain ⟨userId, file, p⟩ := up
  cases hm with
  | posts fileId formFields hb hp hs =>
    cases hp
    obtain ⟨x, hid, hx, -⟩ := hI
    exact ⟨x, hid, hasReserved_step hr hs hx⟩
  | reserved k task p' hp hs ht hres =>
    cases hp
    subst hs
    obtain ⟨p, ht₀⟩ := hI
    cases ht₀.symm.trans ht
    have hholds := (reservations hr).holds k userId file.params p ht
    cases p with
    | create | expiresAt | presign => cases hres
    | returned result =>
      cases hres
      exact hholds
    | threw e =>
      cases hres
      trivial
  | confirms fileId sender random hb hp hs =>
    cases hp
    obtain ⟨x, hid, hx⟩ := hI
    refine ⟨x, hid, hasReserved_step hr hs hx, sender, .findById, ?_, fun y hy => (nomatch hy)⟩
    rw [request_task hs, List.getElem?_append_right (Nat.le_refl _), Nat.sub_self]
    rfl
  | confirmed fileId k task p' hp hs ht hres =>
    cases hp
    subst hs
    obtain ⟨x, hid, hx, sender, p, ht₀, hret⟩ := hI
    cases ht₀.symm.trans ht
    cases p with
    | findById | statObject | markReady => cases hres
    | returned y =>
      cases hres
      obtain ⟨hl, hp, hy⟩ := hret y rfl
      exact ⟨x, hid.trans hy.symm, hx, hl, hp⟩
    | threw e =>
      cases hres
      trivial
  | fails => trivial

/-- In every reachable state. -/
theorem uploadsSound (h : (uploads cfg).Reach okU v) : ∀ (i : Nat) up, v.uploads[i]? = some up → up.Sound v.system := by
  refine h.invariant (I := fun v => ∀ (i : Nat) up, v.uploads[i]? = some up → up.Sound v.system) ?_
    (fun v b v' hr hI _ hs i up hi => ?_)
  · rintro v rfl i up hi
    cases hi
  obtain ⟨hplatform, hback⟩ := uploads_step_cases hs
  cases hback i up hi with
  | waits hi =>
    rcases hplatform with he | ⟨a, hstep, -⟩
    · exact he ▸ hI i up hi
    · exact sound_platform (uploads_platform hr) (step_cases hstep) (hI i up hi)
  | moves up₀ p' hi he hm => exact he ▸ sound_moves (uploads_platform hr) hm (hI i up₀ hi)
  | begins hi hb =>
    cases hb with
    | call userId file random _ hs =>
      refine ⟨createUploadUrl.start cfg userId file.params random, ?_⟩
      rw [request_task hs, List.getElem?_append_right (Nat.le_refl _), Nat.sub_self]
      rfl
    | refused => trivial

/-! ## The ids the uploads have -/

/-- No two uploads have one row, or one request. -/
structure UploadsApart (v : Uploads) : Prop where
  ids : ∀ (i j : Nat) up up' id, v.uploads[i]? = some up → v.uploads[j]? = some up' → up.fileId v.system = some id →
    up'.fileId v.system = some id → i = j
  requests : ∀ (i j : Nat) up up' k, v.uploads[i]? = some up → v.uploads[j]? = some up' → up.p = .requestUploadUrl k →
    up'.p = .requestUploadUrl k → i = j

theorem fileId_issued (hr : (platform cfg).Reach ok s) (hI : up.Sound s) {id : Uuid} (hid : up.fileId s = some id) :
    id ∈ s.world.issued := by
  obtain ⟨userId, file, p⟩ := up
  cases p with
  | requestUploadUrl k => exact reservedId_issued (reservations hr) hid
  | post fileId formFields =>
    cases hid
    obtain ⟨x, hx, hres, -⟩ := hI
    exact hx ▸ hres.issued
  | posted fileId =>
    cases hid
    obtain ⟨x, hx, hres⟩ := hI
    exact hx ▸ hres.issued
  | confirmUpload fileId k =>
    cases hid
    obtain ⟨x, hx, hres, -⟩ := hI
    exact hx ▸ hres.issued
  | returned y =>
    cases hid
    obtain ⟨x, hx, hres, -⟩ := hI
    exact hx ▸ hres.issued
  | threw => cases hid

/-- An upload that waits had its id, or its request has just inserted its row. -/
theorem fileId_platform (h : Stepped cfg s a s') {id : Uuid} (hid : up.fileId s' = some id) :
    up.fileId s = some id ∨ id ∉ s.world.issued ∧ ∃ k, up.p = .requestUploadUrl k ∧ a.actor = some k := by
  obtain ⟨userId, file, p⟩ := up
  cases p with
  | requestUploadUrl k =>
    rcases reservedId_back h hid with hold | ⟨hnew, hacts⟩
    · exact Or.inl hold
    · exact Or.inr ⟨hnew, k, rfl, hacts⟩
  | post | posted | confirmUpload | returned | threw => exact Or.inl hid

/-- An upload that goes on keeps its id. -/
theorem fileId_moves {p' : UploadFile} (hm : UploadMoves cfg s b s' i up p') (hI : up.Sound s) {id : Uuid}
    (hid : ({ up with p := p' } : Upload).fileId s' = some id) : up.fileId s = some id := by
  obtain ⟨userId, file, p⟩ := up
  cases hm with
  | posts fileId formFields hb hp hs =>
    cases hp
    exact hid
  | reserved k task p' hp hs ht hres =>
    cases hp
    show (s.tasks[k]?).bind Task.reservedId = some id
    rw [ht]
    cases task with
    | createUploadUrl u input p =>
      cases p with
      | returned result =>
        cases hres
        exact hid
      | create | expiresAt | presign | threw =>
        cases hres
        try cases hid
    | confirmUpload | deleteFile | createJob | cancelJob | attempt | failedListener | report | sweep => cases hres
  | confirms fileId sender random hb hp hs =>
    cases hp
    exact hid
  | confirmed fileId k task p' hp hs ht hres =>
    cases hp
    obtain ⟨x, -, -, sender, p, ht₀, hret⟩ := hI
    cases ht₀.symm.trans ht
    cases p with
    | findById | statObject | markReady => cases hres
    | returned y =>
      cases hres
      cases hid
      exact congrArg some (hret y rfl).2.2.symm
    | threw e =>
      cases hres
      cases hid
  | fails => cases hid

/-- A call that begins has no id, and its request is a new task. -/
theorem fileId_begins (hb : UploadBegins cfg s s' up) :
    (∀ id, up.fileId s' ≠ some id) ∧ ∀ k, up.p = .requestUploadUrl k → s.tasks[k]? = none := by
  cases hb with
  | call userId file random _ hs =>
    refine ⟨fun id hid => ?_, fun k hk => ?_⟩
    · rcases fileId_platform hs hid with hold | ⟨-, k, -, hacts⟩
      · have hnone : s.tasks[s.tasks.length]? = none := List.getElem?_eq_none (Nat.le_refl _)
        simp only [Upload.fileId, hnone, Option.bind_none] at hold
        cases hold
      · cases hacts
    · cases hk
      exact List.getElem?_eq_none (Nat.le_refl _)
  | refused => exact ⟨fun id hid => (nomatch hid), fun k hk => (nomatch hk)⟩

/-- An upload that is at its first request was there. -/
theorem requestUploadUrl_back (hback : UploadBack cfg v b v' i up) {k : Nat} (hk : up.p = .requestUploadUrl k) :
    v.uploads[i]? = some up ∨ i = v.uploads.length ∧ v.system.tasks[k]? = none := by
  cases hback with
  | waits hi => exact Or.inl hi
  | moves up₀ p' hi he hm =>
    subst he
    cases hk
    cases hm with
    | reserved k' task _ hp hs ht hres =>
      cases task with
      | createUploadUrl u input p => cases p <;> cases hres
      | confirmUpload | deleteFile | createJob | cancelJob | attempt | failedListener | report | sweep => cases hres
    | confirmed fileId k' task _ hp hs ht hres =>
      cases task with
      | confirmUpload u f p => cases p <;> cases hres
      | createUploadUrl | deleteFile | createJob | cancelJob | attempt | failedListener | report | sweep => cases hres
  | begins hi hb => exact Or.inr ⟨hi, (fileId_begins hb).2 k hk⟩

/-- An upload that has an id had it, or is at its first request and the row is new. -/
theorem fileId_back (hr : (uploads cfg).Reach okU v) (h : (uploads cfg).step v b = some v') (hi : v'.uploads[i]? = some up) {id : Uuid}
    (hid : up.fileId v'.system = some id) : (∃ up₀, v.uploads[i]? = some up₀ ∧ up₀.fileId v.system = some id) ∨
      id ∉ v.system.world.issued ∧ ∃ k, up.p = .requestUploadUrl k := by
  obtain ⟨hplatform, hback⟩ := uploads_step_cases h
  cases hback i up hi with
  | waits hi =>
    rcases hplatform with he | ⟨a, hstep, -⟩
    · exact Or.inl ⟨up, hi, he ▸ hid⟩
    · rcases fileId_platform (step_cases hstep) hid with hold | ⟨hnew, k, hk, -⟩
      · exact Or.inl ⟨up, hi, hold⟩
      · exact Or.inr ⟨hnew, k, hk⟩
  | moves up₀ p' hold he hm =>
    subst he
    exact Or.inl ⟨up₀, hold, fileId_moves hm (uploadsSound hr i up₀ hold) hid⟩
  | begins hi hb => exact absurd hid ((fileId_begins hb).1 id)

theorem uploadsApart_step (hr : (uploads cfg).Reach okU v) (h : (uploads cfg).step v b = some v') (hI : UploadsApart v) :
    UploadsApart v' := by
  have requests : ∀ (i j : Nat) up up' k, v'.uploads[i]? = some up → v'.uploads[j]? = some up' → up.p = .requestUploadUrl k →
      up'.p = .requestUploadUrl k → i = j := by
    intro i j up up' k hi hj hk hk'
    -- a request of an upload that was there is a task that was there
    have there {i : Nat} {up : Upload} (hi : v.uploads[i]? = some up) (hk : up.p = .requestUploadUrl k) :
        v.system.tasks[k]? ≠ none := by
      have hsound := uploadsSound hr i up hi
      unfold Upload.Sound at hsound
      rw [hk] at hsound
      obtain ⟨p, ht⟩ := hsound
      rw [ht]
      nofun
    have hback := (uploads_step_cases h).2
    rcases requestUploadUrl_back (hback i up hi) hk with hi | ⟨hlen, hnone⟩ <;>
      rcases requestUploadUrl_back (hback j up' hj) hk' with hj | ⟨hlen', hnone'⟩
    · exact hI.requests i j up up' k hi hj hk hk'
    · exact absurd hnone' (there hi hk)
    · exact absurd hnone (there hj hk')
    · exact hlen.trans hlen'.symm
  refine ⟨fun i j up up' id hi hj hid hid' => ?_, requests⟩
  have hissued {i : Nat} {up₀ : Upload} (hi : v.uploads[i]? = some up₀) (hold : up₀.fileId v.system = some id) :
      id ∈ v.system.world.issued := fileId_issued (uploads_platform hr) (uploadsSound hr i up₀ hi) hold
  rcases fileId_back hr h hi hid with ⟨up₀, hi₀, hold⟩ | ⟨hnew, k, hk⟩ <;>
    rcases fileId_back hr h hj hid' with ⟨up₀', hj₀, hold'⟩ | ⟨hnew', k', hk'⟩
  · exact hI.ids i j up₀ up₀' id hi₀ hj₀ hold hold'
  · exact absurd (hissued hi₀ hold) hnew'
  · exact absurd (hissued hj₀ hold') hnew
  · simp only [Upload.fileId, hk] at hid
    simp only [Upload.fileId, hk'] at hid'
    have hr' : (platform cfg).Reach Lts.Free v'.system := uploads_platform ((hr.mono (fun _ _ _ => trivial)).step b trivial h)
    obtain rfl := (reservations hr').apart k k' id hid hid'
    exact requests i j up up' k hi hj hk hk'

/-- In every reachable state. -/
theorem uploadsApart (h : (uploads cfg).Reach okU v) : UploadsApart v := by
  refine h.invariant ?_ (fun v b v' hr hI _ hs => uploadsApart_step hr hs hI)
  rintro v rfl
  exact ⟨fun i j up up' id hi => (nomatch hi), fun i j up up' k hi => (nomatch hi)⟩

/-! ## An upload that is left alone -/

/-- The row of the upload is there and pending. -/
def Awaits (s : System) (up : Upload) (fileId : Uuid) : Prop :=
  ∃ row ∈ s.world.db.files, row.id = fileId ∧ row.userId = up.userId ∧ row.status = .pending

/-- The row of the upload is there, with its object. -/
def Stands (s : System) (up : Upload) (fileId : Uuid) (row : FileRow) : Prop :=
  Standing s row row ∧ row.id = fileId ∧ row.userId = up.userId

/-- Where an upload is that has been left alone. -/
def Upload.OnCourse (s : System) (up : Upload) : Prop :=
  match up.p with
  | .requestUploadUrl k => ∃ p, s.tasks[k]? = some (.createUploadUrl up.userId up.file.params p) ∧ (∀ e, p ≠ .threw e) ∧
    ∀ id, up.fileId s = some id → Awaits s up id
  | .post fileId _ => Awaits s up fileId
  | .posted fileId => ∃ row, Stands s up fileId row ∧ row.status = .pending
  | .confirmUpload fileId k => ∃ row p, Stands s up fileId row ∧ ConfirmsAt row s k p ∧
    (¬ Ended p ∧ row.status = .pending ∨ (∃ y, p = .returned y) ∧ row.status = .ready)
  | .returned y => ∃ row, Stands s up y.id row ∧ row.status = .ready
  | .threw => False

/-- What a client does spares every upload. -/
theorem spares_client (h : OfClient a) : Spares s up a where
  answers k pick e _ ha := by
    subst ha
    cases h
  inserts k pick ch key _ ha := by
    subst ha
    cases h
  removes row _ _ := by cases h <;> rfl

/-- The insert succeeds. -/
theorem createFile_ok (hr : (platform cfg).Reach ok s) {ch : Choice} {data : NewFile} (hid : ch.id ∉ s.world.issued)
    (hkept : FileRepository.Kept (FileRepository.newRow s.world.now ch.id data)) (e : Err) :
    ((Call.createFile data).exec ch s.world).1 ≠ .error e := by
  simp only [Call.exec, FileRepository.create_eq, if_neg hid, if_pos hkept]
  cases hins : s.world.db.files.insert (FileRepository.newRow s.world.now ch.id data) with
  | none =>
    obtain ⟨y, hy, hkey⟩ := Table.insert_eq_none hins
    have hkey' : y.id = ch.id := hkey
    exact absurd (hkey' ▸ seenIssued hr y (.row hy)) hid
  | some files =>
    intro h
    cases h

/-- A row that is neither deleted nor swept, nor confirmed in the step, stays as it is. -/
theorem row_stands {row : FileRow} (hok : Undisturbed row s a) (h : Stepped cfg s a s') (hmem : row ∈ s.world.db.files)
    (hno : ∀ j x, ¬ ConfirmsAt row s j (.markReady x)) : row ∈ s'.world.db.files := by
  rcases tables_step h with ⟨hfiles, -⟩ | ⟨i, pick, ch, t, aw, ha, ht, hn, hw⟩
  · exact hfiles ▸ hmem
  have hwrote : Wrote s a i t ch aw.call.effect := ⟨⟨pick, ha⟩, ht, cfg, pick, aw, hn, rfl⟩
  obtain ⟨hdelete, hsweep⟩ := not_removed hok ha
  rw [hw]
  rcases files_kept ch aw.call.effect hmem with ⟨row', hrow', hwr⟩ | he
  · generalize aw.call.effect = e at hwr hrow' hwrote
    cases hwr with
    | same => exact hrow'
    | deleted =>
      rcases row_deleter hwrote with rfl | ⟨g, rest, count, rfl, -, hg⟩
      · exact absurd ht hdelete
      · exact absurd hg (hsweep _ g rest count (Or.inr ht))
    | ready =>
      obtain ⟨x, rfl⟩ := ready_marker hwrote
      exact absurd ht (hno i x)
  · rw [he] at hwrote
    obtain ⟨g, rest, count, rfl, -, hg⟩ := row_remover hwrote
    exact absurd hg (hsweep _ g rest count (Or.inr ht))

/-- Nobody marks the row of an upload ready before it is confirmed. -/
theorem not_marked {fileId : Uuid} {row : FileRow} (hal : ConfirmsAlone s up) (hid : up.fileId s = some fileId) (hrow : row.id = fileId)
    (hp : ∀ j, up.p ≠ .confirmUpload fileId j) : ∀ j x, ¬ ConfirmsAt row s j (.markReady x) := by
  intro j x hx
  have ht : s.tasks[j]? = some (.confirmUpload row.userId fileId (.markReady x)) := hrow ▸ hx
  rcases hal fileId j _ _ hid ht with he | ⟨y, hy⟩ | ⟨e, he⟩
  · exact hp j he
  · cases hy
  · cases he

/-- A row that awaits its file goes on to. -/
theorem awaits_step {fileId : Uuid} (h : Stepped cfg s a s') (hsp : Spares s up a) (hal : ConfirmsAlone s up)
    (hid : up.fileId s = some fileId) (hp : ∀ j, up.p ≠ .confirmUpload fileId j) (hI : Awaits s up fileId) : Awaits s' up fileId := by
  obtain ⟨row, hmem, hrow, howner, hpending⟩ := hI
  exact ⟨row, row_stands (hsp.removes row (hrow ▸ hid) howner) h hmem (not_marked hal hid hrow hp), hrow, howner, hpending⟩

/-- A row with its object stays, unless it is made ready. -/
theorem stands_step {fileId : Uuid} {row : FileRow} (hr : (platform cfg).Reach Lts.Free s) (h : Stepped cfg s a s') (hsp : Spares s up a)
    (hid : up.fileId s = some fileId) (hI : Stands s up fileId row) :
    ∃ row', Stands s' up fileId row' ∧ (row' = row ∨ row.status = .pending ∧ row'.status = .ready ∧
      ∃ i x, a.actor = some i ∧ ConfirmsAt row s i (.markReady x)) := by
  obtain ⟨hstanding, hrow, howner⟩ := hI
  obtain ⟨row', hstanding', hm⟩ := standing_step hr (hsp.removes row (hrow ▸ hid) howner) h hstanding
  have hsame := hstanding'.same
  refine ⟨row', ⟨⟨hstanding'.mem, .refl row', hstanding'.status, hsame.storagePath ▸ hstanding'.upload, ?_⟩,
    hsame.id.symm.trans hrow, hsame.userId.symm.trans howner⟩, hm⟩
  rw [← hsame.storagePath, ← hsame.size]
  exact hstanding'.object

/-- A call of a request for a policy that is spared fails only where it is executed. -/
theorem Spares.executes (hsp : Spares s up a) (hk : up.p = .requestUploadUrl k) {pick : Nat} {α : Type} {c : Call α} {e : Err}
    (h : Settles s k pick a c (.error e)) : ∃ ch, a = .exec k pick ch ∧ (c.exec ch s.world).1 = .error e := by
  rcases h.of_error with ha | hx
  · exact absurd ha (hsp.answers k pick e hk)
  · exact hx

/-- A request for a policy that is spared does not fail. -/
theorem reservation_spared (hr : (platform cfg).Reach ok s) (h : Stepped cfg s a s') (hsp : Spares s up a) {p p' : CreateUploadUrl}
    (hk : up.p = .requestUploadUrl k) (ht : s.tasks[k]? = some (.createUploadUrl up.userId up.file.params p))
    (hm : TaskMoves cfg s a k (.createUploadUrl up.userId up.file.params p) (.createUploadUrl up.userId up.file.params p'))
    (hp : ∀ e, p ≠ .threw e) : (∀ e, p' ≠ .threw e) ∧
      ((∃ key, p = .create key ∧ ∃ file ∈ s'.world.db.files, p' = .expiresAt file ∧ file.userId = up.userId ∧ file.status = .pending) ∨
        (Task.createUploadUrl up.userId up.file.params p').reservedId = (Task.createUploadUrl up.userId up.file.params p).reservedId) := by
  cases hm with
  | waits => exact ⟨hp, Or.inr rfl⟩
  | @createUploadUrl _ _ _ _ aw r pick hn hset he =>
    subst he
    cases p with
    | create key =>
      cases hn
      cases r with
      | error e =>
        obtain ⟨ch, ha, hx⟩ := hsp.executes hk hset
        obtain ⟨hid, hkept⟩ := hsp.inserts k pick ch key hk ha ht
        exact absurd hx (createFile_ok hr hid hkept e)
      | ok file =>
        obtain ⟨ch, rfl, hx⟩ := hset.of_ok
        obtain ⟨hres, -, hmem, hpending⟩ := hasReserved_insert hr h ht ((reservations hr).holds k _ _ _ ht) hx
        exact ⟨nofun, Or.inl ⟨key, rfl, file, hmem, rfl, hres.reserved.userId, hpending⟩⟩
    | expiresAt file =>
      cases hn
      cases r with
      | error e =>
        obtain ⟨ch, -, hx⟩ := hsp.executes hk hset
        cases hx
      | ok now => exact ⟨nofun, Or.inr rfl⟩
    | presign file policy =>
      cases hn
      cases r with
      | error e =>
        obtain ⟨ch, -, hx⟩ := hsp.executes hk hset
        cases hx
      | ok v => exact ⟨nofun, Or.inr rfl⟩
    | returned | threw => cases hn

/-- The confirmation that marks the row of an upload ready is the upload's own. -/
theorem ConfirmsAlone.own {fileId : Uuid} {row : FileRow} {p : ConfirmUpload} (hal : ConfirmsAlone s up)
    (hq : up.p = .confirmUpload fileId k) (hrow : row.id = fileId) (hat : ConfirmsAt row s k p)
    (hx : ConfirmsAt row s j (.markReady x)) : j = k ∧ p = .markReady x := by
  have hid : up.fileId s = some fileId := by simp only [Upload.fileId, hq]
  have ht : s.tasks[j]? = some (.confirmUpload row.userId fileId (.markReady x)) := hrow ▸ hx
  rcases hal fileId j _ _ hid ht with he | ⟨y, hy⟩ | ⟨e, he⟩
  · rw [hq] at he
    cases he
    exact ⟨rfl, hat.unique hx⟩
  · cases hy
  · cases he

/-- While its confirmation is under way, the row of an upload has its object, and it is ready once the confirmation has returned. -/
theorem confirming_step {fileId : Uuid} (hr : (platform cfg).Reach Lts.Free s) (h : Stepped cfg s a s') (hsp : Spares s up a)
    (hal : ConfirmsAlone s up) (hq : up.p = .confirmUpload fileId k)
    (hI : ∃ row p, Stands s up fileId row ∧ ConfirmsAt row s k p ∧
      (¬ Ended p ∧ row.status = .pending ∨ (∃ y, p = .returned y) ∧ row.status = .ready)) :
    ∃ row p, Stands s' up fileId row ∧ ConfirmsAt row s' k p ∧
      (¬ Ended p ∧ row.status = .pending ∨ (∃ y, p = .returned y) ∧ row.status = .ready) := by
  have hid : up.fileId s = some fileId := by simp only [Upload.fileId, hq]
  obtain ⟨row, p, hstands, hat, hcase⟩ := hI
  have hok := hsp.removes row (hstands.2.1 ▸ hid) hstands.2.2
  obtain ⟨row', hstands', hrow⟩ := stands_step hr h hsp hid hstands
  obtain ⟨p', hat', hcall⟩ := call_step hr hok h hstands.1 hat
  have hat'' : ConfirmsAt row' s' k p' := by
    unfold ConfirmsAt
    rw [hstands'.2.1, hstands'.2.2, ← hstands.2.1, ← hstands.2.2]
    exact hat'
  have hmarks : row' = row ∨ a.actor = some k ∧ ∃ x, p = .markReady x := by
    rcases hrow with he | ⟨-, -, j, x, hacts, hx⟩
    · exact Or.inl he
    · obtain ⟨rfl, hp⟩ := hal.own hq hstands.2.1 hat hx
      exact Or.inr ⟨hacts, x, hp⟩
  refine ⟨row', p', hstands', hat'', ?_⟩
  rcases hcase with ⟨hnot, hpending⟩ | ⟨⟨y, rfl⟩, hready⟩
  · cases hcall with
    | waits _ hw =>
      rcases hmarks with rfl | ⟨hacts, -⟩
      · exact Or.inl ⟨hnot, hpending⟩
      · exact absurd hacts hw
    | reads | checks =>
      rcases hmarks with rfl | ⟨-, x, hx⟩
      · exact Or.inl ⟨by rintro (⟨y, hy⟩ | ⟨e, he⟩) <;> contradiction, hpending⟩
      · cases hx
    | repeats hp | loses _ _ hp =>
      rw [hpending] at hp
      cases hp
    | confirms ha x updated hp hid' hready' hdone =>
      refine Or.inr ⟨⟨updated, rfl⟩, ?_⟩
      rcases hstands'.1.status with hp' | hp'
      · exact absurd hp' (hdone row' hstands'.1.mem (hstands'.2.1.trans hstands.2.1.symm) (hstands'.2.2.trans hstands.2.2.symm))
      · exact hp'
  · refine Or.inr ⟨⟨y, hcall.of_ended (Or.inl ⟨y, rfl⟩)⟩, ?_⟩
    rcases hrow with rfl | ⟨-, hready', -⟩
    · exact hready
    · exact hready'

/-- The platform goes on, and an upload that waits and is spared stays on its course. -/
theorem onCourse_platform (hr : (platform cfg).Reach Lts.Free s) (h : Stepped cfg s a s') (hsp : Spares s up a) (hal : ConfirmsAlone s up)
    (hI : up.OnCourse s) : up.OnCourse s' := by
  generalize hq : up.p = q
  unfold Upload.OnCourse at hI ⊢
  rw [hq] at hI ⊢
  cases q with
  | requestUploadUrl k =>
    obtain ⟨p, ht, hp, hawaits⟩ := hI
    obtain ⟨t', ht', hm⟩ := task_forward h ht
    obtain ⟨p', rfl⟩ : ∃ p', t' = .createUploadUrl up.userId up.file.params p' := by cases hm <;> exact ⟨_, rfl⟩
    obtain ⟨hthrew, hcase⟩ := reservation_spared hr h hsp hq ht hm hp
    refine ⟨p', ht', hthrew, fun id hid => ?_⟩
    simp only [Upload.fileId, hq, ht', Option.bind_some] at hid
    rcases hcase with ⟨key, rfl, file, hmem, rfl, howner, hpending⟩ | hsame
    · cases hid
      exact ⟨file, hmem, rfl, howner, hpending⟩
    · have hold : up.fileId s = some id := by
        simp only [Upload.fileId, hq, ht, Option.bind_some]
        exact hsame.symm.trans hid
      exact awaits_step h hsp hal hold (by rw [hq]; nofun) (hawaits id hold)
  | post fileId formFields =>
    have hid : up.fileId s = some fileId := by simp only [Upload.fileId, hq]
    exact awaits_step h hsp hal hid (by rw [hq]; nofun) hI
  | posted fileId =>
    have hid : up.fileId s = some fileId := by simp only [Upload.fileId, hq]
    obtain ⟨row, hstands, hpending⟩ := hI
    obtain ⟨row', hstands', rfl | ⟨-, -, j, x, -, hx⟩⟩ := stands_step hr h hsp hid hstands
    · exact ⟨row', hstands', hpending⟩
    · exact absurd hx (not_marked hal hid hstands.2.1 (by rw [hq]; nofun) j x)
  | confirmUpload fileId k => exact confirming_step hr h hsp hal hq hI
  | returned y =>
    have hid : up.fileId s = some y.id := by simp only [Upload.fileId, hq]
    obtain ⟨row, hstands, hready⟩ := hI
    obtain ⟨row', hstands', rfl | ⟨-, hready', -⟩⟩ := stands_step hr h hsp hid hstands
    · exact ⟨row', hstands', hready⟩
    · exact ⟨row', hstands', hready'⟩
  | threw => exact hI

/-- An upload that goes on stays on its course. -/
theorem onCourse_moves (hr : (platform cfg).Reach Lts.Free s) {p' : UploadFile} (hm : UploadMoves cfg s b s' i up p') (hb : b ≠ .fail i)
    (htoken : ∀ sender random fileId, b = .answer i sender random → up.p = .posted fileId → sender = up.userId) (hS : up.Sound s)
    (hI : up.OnCourse s) : ({ up with p := p' } : Upload).OnCourse s' := by
  obtain ⟨userId, file, p⟩ := up
  cases hm with
  | posts fileId formFields _ hp hs =>
    cases hp
    obtain ⟨x, hid, hx, hkey⟩ := hS
    obtain ⟨row, hmem, hrow, howner, hpending⟩ := hI
    have hl := hx.rows row hmem (hrow.trans hid.symm)
    have hpath : row.storagePath = formFields.key := hl.storagePath.trans hkey.symm
    have hsize : row.size = file.params.size := (hx.reserved.later hl).size
    have hupload := (pendingUploads hr).rows row hmem hpending
    cases hs with
    | upload =>
      refine ⟨row, ⟨⟨hmem, .refl row, Or.inl hpending, hupload, ⟨file.size⟩, ?_, hsize.symm⟩, hrow, howner⟩, hpending⟩
      rw [hpath]
      exact if_pos rfl
  | reserved k task p' hp hs ht hres =>
    cases hp
    subst hs
    obtain ⟨p, ht₀, hthrew, hawaits⟩ := hI
    cases ht₀.symm.trans ht
    cases p with
    | create | expiresAt | presign => cases hres
    | returned result =>
      cases hres
      exact hawaits result.fileId (by simp only [Upload.fileId, ht, Option.bind_some, Task.reservedId])
    | threw e => exact absurd rfl (hthrew e)
  | confirms fileId sender random hsent hp hs =>
    obtain rfl : sender = userId := htoken sender random fileId hsent hp
    cases hp
    obtain ⟨row, hstands, hpending⟩ := hI
    obtain ⟨row', hstands', rfl | ⟨-, -, j, x, hacts, -⟩⟩ := stands_step hr hs (spares_client (.request _ _)) rfl hstands
    · refine ⟨row', .findById, hstands', ?_, Or.inl ⟨by rintro (⟨y, hy⟩ | ⟨e, he⟩) <;> contradiction, hpending⟩⟩
      unfold ConfirmsAt
      rw [hstands'.2.1, hstands'.2.2, request_task hs, List.getElem?_append_right (Nat.le_refl _), Nat.sub_self]
      rfl
    · cases hacts
  | confirmed fileId k task p' hp hs ht hres =>
    cases hp
    subst hs
    obtain ⟨x, hid, hx, sender, p, ht₀, hret⟩ := hS
    obtain ⟨row, q, hstands, hat, hcase⟩ := hI
    obtain rfl : p = q := by
      have hat' : s'.tasks[k]? = some (.confirmUpload row.userId row.id q) := hat
      cases ht₀.symm.trans hat'
      rfl
    cases ht₀.symm.trans ht
    cases p with
    | findById | statObject | markReady => cases hres
    | returned y =>
      cases hres
      rcases hcase with ⟨hnot, -⟩ | ⟨-, hready⟩
      · exact absurd (Or.inl ⟨y, rfl⟩) hnot
      · exact ⟨row, ⟨hstands.1, hstands.2.1.trans (hret y rfl).2.2.symm, hstands.2.2⟩, hready⟩
    | threw e =>
      rcases hcase with ⟨hnot, -⟩ | ⟨⟨y, hy⟩, -⟩
      · exact absurd (Or.inr ⟨e, rfl⟩) hnot
      · cases hy
  | fails hfail => exact absurd hfail hb

/-- An upload whose file can be uploaded begins with a request that does not fail at once. -/
theorem onCourse_begins (hb : UploadBegins cfg s s' up) (hup : Uploadable cfg up.file) : up.OnCourse s' := by
  obtain ⟨hadmitted, hmax⟩ := hup
  cases hb with
  | call userId file random _ hs =>
    have hsize : 1 ≤ file.params.size := by
      simp only [BrowserFile.admitted, Bool.and_eq_true, decide_eq_true_eq] at hadmitted
      exact hadmitted.2
    have hstart : createUploadUrl.start cfg userId file.params random =
        .create (uploadKey userId random (extname file.params.filename)) := by
      have hlow : ¬ file.params.size ≤ 0 := by omega
      have hhigh : ¬ (cfg.maxFileSizeBytes : Int) < file.params.size := by
        have hcast : file.params.size = (file.size : Int) := rfl
        dsimp only at hmax
        omega
      rw [createUploadUrl.start, if_neg hlow, if_neg hhigh]
    have htask : s'.tasks[s.tasks.length]? = some (.createUploadUrl userId file.params
        (.create (uploadKey userId random (extname file.params.filename)))) := by
      rw [request_task hs, List.getElem?_append_right (Nat.le_refl _), Nat.sub_self, ← hstart]
      rfl
    refine ⟨_, htask, nofun, fun id hid => ?_⟩
    simp only [Upload.fileId, htask, Option.bind_some, Task.reservedId] at hid
    cases hid
  | refused userId file hrefused =>
    dsimp only at hadmitted
    rw [hrefused] at hadmitted
    cases hadmitted

/-- In every state of a run that leaves the upload alone. -/
theorem onCourse (h : (uploads cfg).Reach (LeftAlone i) v) :
    ∀ up, v.uploads[i]? = some up → Uploadable cfg up.file → up.OnCourse v.system := by
  refine h.invariant (I := fun v => ∀ up, v.uploads[i]? = some up → Uploadable cfg up.file → up.OnCourse v.system) ?_
    (fun v b v' hr hI hok hs up hi hup => ?_)
  · rintro v rfl up hi
    cases hi
  obtain ⟨hplatform, hback⟩ := uploads_step_cases hs
  have hrs := uploads_platform hr
  cases hback i up hi with
  | waits hold =>
    rcases hplatform with he | ⟨a, hstep, hb⟩
    · exact he ▸ hI up hold hup
    · have hsp : Spares v.system up a := by
        rcases hb with hb | hclient
        · exact hok.spared up a hold hb
        · exact spares_client hclient
      exact onCourse_platform hrs (step_cases hstep) hsp (hok.alone up hold) (hI up hold hup)
  | moves up₀ p' hold he hm =>
    subst he
    exact onCourse_moves hrs hm hok.told (fun sender random fileId => hok.token up₀ sender random fileId hold)
      (uploadsSound hr i up₀ hold) (hI up₀ hold hup)
  | begins hlen hb => exact onCourse_begins hb hup

/-! ## The protocol -/

/-- The steps of a post. -/
theorem post_step (h : (uploads cfg).step v (.post i) = some v') (hi : v.uploads[i]? = some up) :
    ∃ fileId formFields, up.p = .post fileId formFields ∧ Stepped cfg v.system (.upload formFields up.file.size) v'.system := by
  simp only [uploads, Uploads.step] at h
  split at h
  · rename_i userId file fileId formFields hi'
    cases hi'.symm.trans hi
    obtain ⟨system, hs, rfl⟩ := Option.map_eq_some_iff.1 h
    exact ⟨fileId, formFields, rfl, step_cases hs⟩
  · cases h

/-- A post stores its file at the path of its policy. -/
theorem upload_stores {formFields : PostPolicy} {size : Nat} (h : Stepped cfg s (.upload formFields size) s') :
    s'.world.bucket formFields.key = some ⟨size⟩ := by
  cases h
  exact if_pos rfl

/-- Whatever interleaves, the uploads deliver. -/
theorem uploads_deliver (cfg : Config) : UploadsDeliver cfg where
  returned v h i up file hi hp := by
    have hsound := uploadsSound h i up hi
    unfold Upload.Sound at hsound
    rw [hp] at hsound
    obtain ⟨x, -, hx, hl, hready⟩ := hsound
    exact ⟨hx.reserved.later hl, hready⟩
  apart v h := (uploadsApart h).ids
  posts v v' i up h hs hi := by
    obtain ⟨fileId, formFields, hp, hstep⟩ := post_step hs hi
    have hsound := uploadsSound h i up hi
    unfold Upload.Sound at hsound
    rw [hp] at hsound
    obtain ⟨x, hid, hx, hkey⟩ := hsound
    have hx' := hasReserved_step (uploads_platform h) hstep hx
    refine ⟨fileId, formFields, hp, ?_, fun row hrow => ⟨⟨fun hpath => ?_, fun hrid => ?_⟩, fun hrid => ?_⟩⟩
    · exact upload_stores hstep
    · exact (hx'.path row hrow (hpath.trans hkey)).trans hid
    · exact (hx'.rows row hrow (hrid.trans hid.symm)).storagePath.trans hkey.symm
    · exact hx.reserved.later (hx'.rows row hrow (hrid.trans hid.symm))
  completes i v h up hi hup := by
    have hcourse := onCourse h up hi hup
    have hsound := uploadsSound h i up hi
    unfold Upload.OnCourse at hcourse
    unfold Upload.Sound at hsound
    refine ⟨fun hp => ?_, fun file hp => ?_⟩
    · rw [hp] at hcourse
      exact hcourse
    · rw [hp] at hcourse hsound
      obtain ⟨row, hstands, hready⟩ := hcourse
      obtain ⟨x, hid, hx, -⟩ := hsound
      obtain ⟨object, hobject, hsize⟩ := hstands.1.object
      have hrow := (hx.reserved.later (hx.rows row hstands.1.mem (hstands.2.1.trans hid.symm))).size
      refine ⟨row, hstands.1.mem, hstands.2.1, hready, object, hobject, ?_⟩
      rw [hrow] at hsize
      exact Int.ofNat.inj hsize

/-- A guest's upload, from the call to the file it returns. -/
example :
    let guest := Trace.uuid 1
    let run : List UploadAction :=
      [.platform (.guestSession guest), .call guest ⟨"a.png", "", 7⟩ (Trace.uuid 2), .platform (Trace.call 0 10),
        .platform (Trace.call 0 0), .platform (Trace.call 0 0), .answer 0 guest (Trace.uuid 3), .post 0, .answer 0 guest (Trace.uuid 4),
        .platform (Trace.call 1 0), .platform (Trace.call 1 0), .platform (Trace.call 1 0), .answer 0 guest (Trace.uuid 5)]
    ((uploads Config.default).run Uploads.empty run).map (fun v => v.uploads.map Upload.p) =
      some [.returned ⟨Trace.uuid 10, guest, "a.png", "application/octet-stream", 7, Trace.key, .ready, 0, 0⟩] := by
  decide +kernel

end Uploads

end FileProcessing
