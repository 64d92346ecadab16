import FileProcessing.Lemmas.Objects
import FileProcessing.Theorems.DatabaseIsolation

/-!
# The objects of the tenants are apart

The keys of a user begin with `<userId>/` or with `processed/<userId>/`. An object under such a key changes only in an upload under a
policy that was handed to the user, in an attempt at a job of theirs, or in a sweep that removes a file of theirs; the calls made for
a user read no other keys; and a policy is signed for no one but the user it is handed to.
-/

namespace FileProcessing

/-- The key begins with one of the two prefixes of the user. -/
def UnderPrefix (u : Uuid) (key : String) : Prop :=
  (u.text ++ "/").toList <+: key.toList ∨ ("processed/" ++ u.text ++ "/").toList <+: key.toList

/-- The key whose object a call reads. -/
def Call.opens : {α : Type} → Call α → Option String
  | _, .statObject key | _, .getObject key => some key
  | _, _ => none

/-- The key whose object a call that reads opens. -/
def ReadCall.opens : {α : Type} → ReadCall α → Option String
  | _, .call c => c.opens
  | _, _ => none

/-- A call of `createUploadUrl` for the user has returned the policy. -/
def HandedTo (s : System) (u : Uuid) (policy : PostPolicy) : Prop :=
  ∃ (i : Nat) (input : FileService.CreateUploadUrlInput) (result : FileService.CreateUploadUrlResult),
    s.tasks[i]? = some (.createUploadUrl u input (.returned result)) ∧ result.formFields = policy

/-- The steps that may change the object under a key of the user. -/
inductive ChangesObject (s : System) (u : Uuid) (key : String) : Action → Prop where
  | upload {policy : PostPolicy} (size : Nat) (handed : HandedTo s u policy) (hkey : policy.key = key) :
      ChangesObject s u key (.upload policy size)
  | output {i k : Nat} {data : JobPayload} {p : Attempt} {b : Bool} (pick : Nat) (ch : Choice)
      (ht : s.tasks[i]? = some (.attempt k data p b)) (who : data.userId = u) : ChangesObject s u key (.exec i pick ch)
  | sweep {i : Nat} {kind : SweepKind} {file : FileRow} {rest : List FileRow} {count : Nat} (pick : Nat) (ch : Choice)
      (ht : s.tasks[i]? = some (.sweep kind (.removeObject file rest count))) (who : file.userId = u)
      (hkey : file.storagePath = key) : ChangesObject s u key (.exec i pick ch)

/-- The isolation of the objects. -/
structure StorageIsolated (env : Env) : Prop where
  changed : ∀ c a c' u key, (tenants env).Reach Lts.Free c → (tenants env).step c a = some c' → UnderPrefix u key →
    c'.world.bucket key ≠ c.world.bucket key → ∃ b, a = .platform b ∧ ChangesObject c.system u key b
  opened : ∀ (c : Tenants) (i pick : Nat) t aw u key, (tenants env).Reach Lts.Free c → c.system.tasks[i]? = some t →
    t.Serves c.world.queue u → t.next env.config pick = some aw → aw.call.opens = some key → UnderPrefix u key
  read : ∀ (c : Tenants) (i : Nat) countFirst t aw key, (tenants env).Reach Lts.Free c → c.reads[i]? = some t →
    t.next countFirst = some aw → aw.call.opens = some key → UnderPrefix t.userId key
  handed : ∀ c policy, (tenants env).Reach Lts.Free c → policy ∈ c.world.policies →
    ∃ u, HandedTo c.system u policy ∧ UnderPrefix u policy.key

/-! ## The prefixes -/

theorem underPrefix_of_keyOf {u : Uuid} {key : String} (h : KeyOf u key) : UnderPrefix u key := by
  rcases h with ⟨random, ext, rfl⟩ | ⟨jobId, name, rfl⟩
  · refine Or.inl ⟨random.chars ++ ext.toList, ?_⟩
    simp [uploadKey_toList, Uuid.text]
  · refine Or.inr ⟨jobId.chars ++ '/' :: name.toList, ?_⟩
    simp [outputKey_toList, Uuid.text]

/-- A key that begins with the text of a UUID and a slash does not begin with `processed/`. -/
theorem not_processed {u v : Uuid} {rest rest' : List Char} :
    u.chars ++ '/' :: rest ≠ "processed/".toList ++ (v.chars ++ '/' :: rest') := by
  intro h
  obtain ⟨c, l, hc, hp⟩ := u.chars_head
  rw [hc] at h
  exact hp (List.cons.inj h).1

theorem UnderPrefix.cases {u : Uuid} {key : String} (h : UnderPrefix u key) :
    (∃ rest, key.toList = u.chars ++ '/' :: rest) ∨ ∃ rest, key.toList = "processed/".toList ++ (u.chars ++ '/' :: rest) := by
  rcases h with ⟨rest, h⟩ | ⟨rest, h⟩
  · exact Or.inl ⟨rest, by simp [← h, Uuid.text]⟩
  · exact Or.inr ⟨rest, by simp [← h, Uuid.text]⟩

/-- A key lies under the prefixes of one user only. -/
theorem UnderPrefix.inj {u v : Uuid} {key : String} (hu : UnderPrefix u key) (hv : UnderPrefix v key) : u = v := by
  rcases hu.cases with ⟨rest, hu⟩ | ⟨rest, hu⟩ <;> rcases hv.cases with ⟨rest', hv⟩ | ⟨rest', hv⟩ <;> rw [hu] at hv
  · exact Uuid.chars_inj (List.append_inj hv (by rw [Uuid.length_chars, Uuid.length_chars])).1
  · exact absurd hv not_processed
  · exact absurd hv.symm not_processed
  · exact Uuid.chars_inj (List.append_inj (List.append_cancel_left hv) (by rw [Uuid.length_chars, Uuid.length_chars])).1

/-! ## The keys the tasks hold -/

variable {cfg : Config} {ok : System → Action → Prop} {s s' : System} {a : Action}

/-- The key a call of `createUploadUrl` reserves, wherever it stands. -/
def FileService.CreateUploadUrl.key : FileService.CreateUploadUrl → Option String
  | .create objectKey => some objectKey
  | .expiresAt file => some file.storagePath
  | .presign _ policy => some policy.key
  | .returned result => some result.formFields.key
  | .threw _ => none

/-- The input an attempt is about to open. -/
def Attempt.opens : Attempt → Option FileRow
  | .compress (.getObject inputFile) | .convert (.getObject inputFile) => some inputFile
  | _ => none

/-- The keys and the files the tasks hold belong to the users they serve. -/
structure KeysHeld (s : System) : Prop where
  reserved : ∀ (i : Nat) u input p key, s.tasks[i]? = some (.createUploadUrl u input p) → p.key = some key → KeyOf u key
  presigned : ∀ (i : Nat) u input file policy, s.tasks[i]? = some (.createUploadUrl u input (.presign file policy)) →
    policy.key = file.storagePath
  confirmed : ∀ (i : Nat) u f file, s.tasks[i]? = some (.confirmUpload u f (.statObject file)) → KeyOf u file.storagePath
  inputs : ∀ (i k : Nat) data p b file, s.tasks[i]? = some (.attempt k data p b) → p.opens = some file →
    KeyOf data.userId file.storagePath
  items : ∀ kind file, HeldItem kind s file → KeyOf file.userId file.storagePath

/-- What follows a call of a progress report. -/
theorem promiseAll_resume {P : Type} {jobId : Uuid} {n pick : Nat} {todo : List ReportTarget} {pending : List ReportTarget → P}
    {done : P} {threw : Err → P} {aw : Await (P × List Report)} (h : promiseAll jobId n todo pick pending done threw = some aw)
    (r : Except Err aw.α) : (∃ e, (aw.resume r).1 = threw e) ∨ (aw.resume r).1 = done ∨ ∃ l, (aw.resume r).1 = pending l := by
  unfold promiseAll at h
  split at h
  · cases h
  cases h
  cases r with
  | error e => exact Or.inl ⟨e, rfl⟩
  | ok v =>
    dsimp only
    split
    · exact Or.inr (Or.inl rfl)
    · exact Or.inr (Or.inr ⟨_, rfl⟩)

/-- An attempt opens the file its payload names, a row of the payload's user. -/
theorem imageProcess_opens {P : ImageProcessor} {data : JobPayload} {i pick : Nat} {p : ImageProcess}
    {aw : Await (ImageProcess × List Report)} (h : imageProcess P data pick p = some aw) {r : Except Err aw.α}
    (hr : Settles s i pick a aw.call r) {file : FileRow} (he : (aw.resume r).1 = .getObject file) :
    file ∈ s.world.db.files ∧ file.userId = data.userId := by
  cases p with
  | findInput =>
    cases h
    cases r with
    | error e => cases he
    | ok found =>
      obtain ⟨ch, -, hx⟩ := hr.of_ok
      cases found with
      | none => cases he
      | some input =>
        cases he
        obtain ⟨hfile, -, hu⟩ := findFile_some (Except.ok.inj hx)
        exact ⟨hfile, hu⟩
  | report33 f todo =>
    have h : promiseAll data.jobId 33 todo pick (.report33 f) (.sharp f) .threw = some aw := h
    rcases promiseAll_resume h r with ⟨e, hp⟩ | hp | ⟨l, hp⟩ <;> cases hp.symm.trans he
  | report66 f n todo =>
    have h : promiseAll data.jobId 66 todo pick (.report66 f n) (.putObject f n) .threw = some aw := h
    rcases promiseAll_resume h r with ⟨e, hp⟩ | hp | ⟨l, hp⟩ <;> cases hp.symm.trans he
  | markActive | publishStart | getObject | readStream | sharp | putObject | createFile | complete | publishCompleted =>
    cases h
    cases r <;> cases he
  | returned | threw => cases h

theorem attempt_opens {data : JobPayload} {i pick : Nat} {p : Attempt} {aw : Await (Attempt × List Report)}
    (h : p.next data pick = some aw) {r : Except Err aw.α} (hr : Settles s i pick a aw.call r) {file : FileRow}
    (he : (aw.resume r).1.opens = some file) : file ∈ s.world.db.files ∧ file.userId = data.userId := by
  have hget : ∀ {p' : ImageProcess}, (Attempt.compress p').opens = some file ∨ (Attempt.convert p').opens = some file →
      p' = .getObject file := by
    intro p' hp'
    cases p' <;> rcases hp' with hp' | hp' <;> cases hp' <;> rfl
  cases p with
  | compress p =>
    obtain ⟨aw, haw, rfl⟩ := Option.map_eq_some_iff.1 h
    exact imageProcess_opens haw hr (hget (Or.inl he))
  | convert p =>
    obtain ⟨aw, haw, rfl⟩ := Option.map_eq_some_iff.1 h
    exact imageProcess_opens haw hr (hget (Or.inr he))
  | default p =>
    obtain ⟨aw, haw, rfl⟩ := Option.map_eq_some_iff.1 h
    cases he

theorem keysHeld_step (hr : (platform cfg).Reach ok s) (h : Stepped cfg s a s') (hI : KeysHeld s) : KeysHeld s' where
  reserved i u input p' key hi hkey := by
    rcases task_back h hi with ⟨t, ht, hm⟩ | ⟨-, hsp⟩
    · obtain ⟨p, rfl, hmv⟩ := reserve_moves hm
      cases hmv with
      | waits => exact hI.reserved i u input p' key ht hkey
      | throws => cases hkey
      | creates pick ch ha key' file hx =>
        cases hkey
        rcases createFile_cases ch s.world ⟨u, input.filename, input.mimeType, input.size, key', .pending⟩ with
          ⟨e, he⟩ | ⟨files, -, -, he⟩ <;> rw [he] at hx <;> cases hx
        exact hI.reserved i u input _ key' ht rfl
      | dates file now => exact hI.reserved i u input _ key ht hkey
      | signs file policy => exact hI.reserved i u input _ key ht hkey
    · cases hsp with
      | createUploadUrl random hn ha hp =>
        rcases createUploadUrl_start_cases cfg u input random with ⟨e, he⟩ | ⟨key', he⟩
        · rw [hp, he] at hkey
          cases hkey
        · rw [hp, he] at hkey
          cases hkey
          exact Or.inl ⟨random, _, createUploadUrl_start he⟩
  presigned i u input file policy hi := by
    rcases task_back h hi with ⟨t, ht, hm⟩ | ⟨-, hsp⟩
    · obtain ⟨p, rfl, hmv⟩ := reserve_moves hm
      cases hmv with
      | waits => exact hI.presigned i u input file policy ht
      | dates => rfl
    · rcases reserve_spawns hsp with ⟨e, he⟩ | ⟨key, he⟩ <;> cases he
  confirmed i u f file hi := by
    rcases task_back h hi with ⟨t, ht, hm⟩ | ⟨-, hsp⟩
    · obtain ⟨p, rfl, hmv⟩ := confirm_moves hm
      cases hmv with
      | waits => exact hI.confirmed i u f file ht
      | reads pick ch ha _ hf hid hu => exact hu ▸ (pathsOwned hr).rows file hf
    · cases hsp
  inputs i k data p' b file hi ho := by
    rcases task_back h hi with ⟨t, ht, hm⟩ | ⟨-, hsp⟩
    · cases hm with
      | waits => exact hI.inputs i k data p' b file ht ho
      | settled => exact hI.inputs i k data p' false file ht ho
      | attempt hn hset he =>
        subst he
        obtain ⟨hfile, hu⟩ := attempt_opens hn hset ho
        exact hu ▸ (pathsOwned hr).rows file hfile
    · cases hsp with
      | attempt _ _ _ _ hp =>
        rw [hp] at ho
        unfold Attempt.start at ho
        split at ho
        · cases ho
        · split at ho <;> cases ho
  items kind file hheld := by
    rcases heldItem_back h hheld with hheld | ⟨_, _, _, _, -, -, hb⟩
    · exact hI.items kind file hheld
    · exact (pathsOwned hr).rows file (mem_batch hb)

theorem keysHeld (h : (platform cfg).Reach ok s) : KeysHeld s := by
  refine h.invariant ?_ (fun s a s' hr hI _ hs => keysHeld_step hr (step_cases hs) hI)
  rintro s rfl
  exact ⟨fun _ _ _ _ _ hi => (nomatch hi), fun _ _ _ _ _ hi => (nomatch hi), fun _ _ _ _ hi => (nomatch hi),
    fun _ _ _ _ _ _ hi => (nomatch hi), fun _ _ ⟨_, _, hi, _⟩ => (nomatch hi)⟩

/-! ## The policies -/

/-- Every policy that was signed was handed to the user of its key. -/
def PoliciesHanded (s : System) : Prop := ∀ policy ∈ s.world.policies, ∃ u, HandedTo s u policy ∧ KeyOf u policy.key

theorem policiesHanded_step (hr : (platform cfg).Reach ok s) (h : Stepped cfg s a s') (hI : PoliciesHanded s) : PoliciesHanded s' := by
  intro policy hp
  rcases policies_step h hp with hp | ⟨i, t, ch, hw⟩
  · obtain ⟨u, ⟨i, input, result, ht, hres⟩, hkey⟩ := hI policy hp
    obtain ⟨t', ht', hm⟩ := task_forward h ht
    cases hm with
    | waits => exact ⟨u, ⟨i, input, result, ht', hres⟩, hkey⟩
    | createUploadUrl hn => cases hn
  · obtain ⟨u, input, file, rfl⟩ := policy_signer hw
    obtain ⟨pick, rfl⟩ := hw.action
    obtain ⟨t', ht', hm⟩ := task_forward h hw.task
    have hkey := (keysHeld hr).reserved i u input _ policy.key hw.task rfl
    cases hm with
    | waits _ hne => exact absurd rfl hne
    | @createUploadUrl _ _ _ _ aw r pick' hn hset he =>
      cases hn
      cases hset
      cases he
      exact ⟨u, ⟨i, input, _, ht', rfl⟩, hkey⟩

theorem policiesHanded (h : (platform cfg).Reach ok s) : PoliciesHanded s := by
  refine h.invariant ?_ (fun s a s' hr hI _ hs => policiesHanded_step hr (step_cases hs) hI)
  rintro s rfl policy hp
  cases hp

/-! ## The result -/

/-- The object under a key of the user changes only so. -/
theorem object_changes (hK : KeysHeld s) (hP : PoliciesHanded s) (h : Stepped cfg s a s') {u : Uuid} {key : String} (hu : UnderPrefix u key)
    (hne : s'.world.bucket key ≠ s.world.bucket key) : ChangesObject s u key a := by
  rcases bucket_step h key with heq | ⟨policy, size, rfl, hp, -, -, hkey, -⟩ | ⟨i, t, ch, e, hw, ⟨size, rfl, -⟩ | ⟨rfl, -⟩⟩
  · exact absurd heq hne
  · obtain ⟨v, hv, hown⟩ := hP policy hp
    rw [hkey] at hown
    cases hu.inj (underPrefix_of_keyOf hown)
    exact .upload size hv hkey
  · obtain ⟨k, data, p, b, rfl, hg, -, -⟩ := object_putter hw
    obtain ⟨pick, rfl⟩ := hw.action
    refine .output pick ch hw.task ?_
    have hcall := hw.writes
    cases hcall with
    | attempt _ _ _ _ _ hc =>
      rw [hg] at hc
      cases hc with
      | put name => exact (hu.inj (underPrefix_of_keyOf (Or.inr ⟨data.jobId, name, rfl⟩))).symm
  · obtain ⟨kind, file, rest, count, rfl, hkey⟩ := object_remover hw
    obtain ⟨pick, rfl⟩ := hw.action
    have hown := hK.items kind file ⟨i, _, hw.task, List.mem_cons_self⟩
    rw [hkey] at hown
    exact .sweep pick ch hw.task (hu.inj (underPrefix_of_keyOf hown)).symm hkey

theorem confirmUpload_opens {u f : Uuid} {p : FileService.ConfirmUpload} {aw : Await FileService.ConfirmUpload}
    (h : FileService.confirmUpload u f p = some aw) {key : String} (ho : aw.call.opens = some key) :
    ∃ file, p = .statObject file ∧ file.storagePath = key := by
  cases p with
  | statObject file =>
    cases h
    exact ⟨file, rfl, Option.some.inj ho⟩
  | findById | markReady =>
    cases h
    cases ho
  | returned | threw => cases h

theorem promiseAll_call {P : Type} {jobId : Uuid} {n pick : Nat} (todo : List ReportTarget) {pending : List ReportTarget → P}
    {done : P} {threw : Err → P} {aw : Await (P × List Report)} (h : promiseAll jobId n todo pick pending done threw = some aw) :
    aw.call.opens = none := by
  unfold promiseAll at h
  split at h
  · cases h
  rename_i target _
  cases h
  cases target <;> rfl

theorem imageProcess_call {P : ImageProcessor} {data : JobPayload} {pick : Nat} {p : ImageProcess}
    {aw : Await (ImageProcess × List Report)} (h : imageProcess P data pick p = some aw) {key : String}
    (ho : aw.call.opens = some key) : ∃ file, p = .getObject file ∧ file.storagePath = key := by
  cases p with
  | getObject file =>
    cases h
    exact ⟨file, rfl, Option.some.inj ho⟩
  | report33 f todo =>
    cases (promiseAll_call todo h).symm.trans ho
  | report66 f n todo =>
    cases (promiseAll_call todo h).symm.trans ho
  | markActive | publishStart | findInput | readStream | sharp | putObject | createFile | complete | publishCompleted =>
    cases h
    cases ho
  | returned | threw => cases h

theorem defaultProcess_call {data : JobPayload} {pick : Nat} {p : DefaultProcess} {aw : Await (DefaultProcess × List Report)}
    (h : defaultProcess data pick p = some aw) : aw.call.opens = none := by
  cases p with
  | report i todo => exact promiseAll_call todo h
  | markActive | stage | complete | publishCompleted =>
    cases h
    rfl
  | returned | threw => cases h

theorem attempt_call {data : JobPayload} {pick : Nat} {p : Attempt} {aw : Await (Attempt × List Report)}
    (h : p.next data pick = some aw) {key : String} (ho : aw.call.opens = some key) :
    ∃ file, p.opens = some file ∧ file.storagePath = key := by
  cases p with
  | compress p | convert p =>
    obtain ⟨aw, haw, rfl⟩ := Option.map_eq_some_iff.1 h
    obtain ⟨file, rfl, hkey⟩ := imageProcess_call haw ho
    exact ⟨file, rfl, hkey⟩
  | default p =>
    obtain ⟨aw, haw, rfl⟩ := Option.map_eq_some_iff.1 h
    cases (defaultProcess_call haw).symm.trans ho

/-- A task that serves a user opens keys of theirs alone. -/
theorem opens_own (hK : KeysHeld s) {i pick : Nat} {t : Task} {queue : List BullJob} {u : Uuid}
    (ht : s.tasks[i]? = some t) (who : t.Serves queue u) {aw : Await (Task × List Task)} (hn : t.next cfg pick = some aw) {key : String}
    (ho : aw.call.opens = some key) : KeyOf u key := by
  cases t with
  | confirmUpload v f p =>
    obtain ⟨aw, haw, rfl⟩ := Option.map_eq_some_iff.1 hn
    obtain ⟨file, rfl, rfl⟩ := confirmUpload_opens haw ho
    have who : v = u := who
    exact who ▸ hK.confirmed i v f file ht
  | attempt k data p b =>
    obtain ⟨aw, haw, rfl⟩ := Option.map_eq_some_iff.1 hn
    obtain ⟨file, hp, rfl⟩ := attempt_call haw ho
    have who : data.userId = u := who
    exact who ▸ hK.inputs i k data p b file ht hp
  | createUploadUrl v input p =>
    cases p <;> cases hn <;> cases ho
  | deleteFile v f p =>
    cases p <;> cases hn <;> cases ho
  | createJob v f ty o p =>
    cases p <;> cases hn <;> cases ho
  | cancelJob v j p =>
    cases p <;> cases hn <;> cases ho
  | failedListener j m p =>
    cases p <;> cases hn <;> cases ho
  | report r done =>
    obtain ⟨jobId, n, target⟩ := r
    cases done with
    | false =>
      cases hn
      cases target <;> cases ho
    | true => cases hn
  | sweep kind p => exact who.elim

section Tenants

variable {env : Env} {c c' : Tenants} {b : TenantAction}

theorem tenants_keysHeld (h : (tenants env).Reach Lts.Free c) : KeysHeld c.system ∧ PoliciesHanded c.system := by
  obtain ⟨s, hs, users, sessions, rfl, -, -⟩ := mirrored h
  have hK := keysHeld hs
  have hP := policiesHanded hs
  exact ⟨⟨hK.reserved, hK.presigned, hK.confirmed, hK.inputs, hK.items⟩, hP⟩

/-- A download holds a file of its user. -/
def DownloadsKeyed (c : Tenants) : Prop :=
  ∀ (i : Nat) u f file, c.reads[i]? = some (.downloadFile u f (.getObject file)) → KeyOf u file.storagePath

theorem downloadsKeyed_step (hr : (tenants env).Reach Lts.Free c) (h : TenantStepped env c b c') (hI : DownloadsKeyed c) :
    DownloadsKeyed c' := by
  intro i u f file hi
  rcases readMoves_back h hi with ⟨t, ht, hm⟩ | ⟨r, -, -, hr⟩
  · generalize hg : ReadTask.downloadFile u f (.getObject file) = t' at hm
    cases hm with
    | waits =>
      subst hg
      exact hI i u f file ht
    | @settles aw r countFirst hn hset =>
      cases t with
      | downloadFile v g p =>
        obtain ⟨aw, haw, rfl⟩ := Option.map_eq_some_iff.1 hn
        cases p with
        | findById =>
          cases haw
          cases r with
          | error e => cases hg
          | ok found =>
            obtain ⟨ch, hx⟩ := hset.of_ok
            cases found with
            | none => cases hg
            | some row =>
              simp only [ReadAwait.map] at hg
              split at hg
              · cases hg
              · cases hg
                obtain ⟨hfile, -, hu⟩ := findFile_some (Except.ok.inj hx)
                obtain ⟨s, hs, users, sessions, rfl, -, -⟩ := mirrored hr
                exact hu ▸ (pathsOwned hs).rows file hfile
        | getObject g' =>
          cases haw
          cases r <;> cases hg
        | returned | threw => cases haw
      | listFiles v opts p | listJobs v opts p | findFile v g p | findJob v g p =>
        obtain ⟨aw, haw, rfl⟩ := Option.map_eq_some_iff.1 hn
        cases hg
  · cases r <;> cases hr

theorem downloadsKeyed (h : (tenants env).Reach Lts.Free c) : DownloadsKeyed c := by
  refine h.invariant ?_ (fun c b c' hr hI _ hs => downloadsKeyed_step hr (tenants_step_cases hs) hI)
  rintro c rfl i u f file hi
  cases hi

/-- A call that reads opens keys of its user alone. -/
theorem reads_own (hD : DownloadsKeyed c) {i : Nat} {countFirst : Bool} {t : ReadTask} {aw : ReadAwait ReadTask}
    (ht : c.reads[i]? = some t) (hn : t.next countFirst = some aw) {key : String} (ho : aw.call.opens = some key) :
    KeyOf t.userId key := by
  cases t with
  | downloadFile u f p =>
    cases p with
    | getObject file =>
      cases hn
      cases ho
      exact hD i u f file ht
    | findById =>
      cases hn
      cases ho
    | returned | threw => cases hn
  | listFiles u opts p | listJobs u opts p =>
    cases p with
    | findAllByUser =>
      cases countFirst <;> cases hn <;> cases ho
    | count | select =>
      cases hn
      cases ho
    | returned | threw => cases hn
  | findFile u f p | findJob u f p =>
    cases p with
    | findById =>
      cases hn
      cases ho
    | returned | threw => cases hn

theorem storage_isolated (env : Env) : StorageIsolated env where
  changed c b c' u key hr hs hu hne := by
    obtain ⟨hK, hP⟩ := tenants_keysHeld hr
    rcases platform_or_same (tenants_step_cases hs) with ⟨a, rfl, hstep⟩ | ⟨-, -, -, hbucket⟩
    · exact ⟨a, rfl, object_changes hK hP hstep hu hne⟩
    · exact absurd (congrFun hbucket key) hne
  opened c i pick t aw u key hr ht who hn ho := underPrefix_of_keyOf (opens_own (tenants_keysHeld hr).1 ht who hn ho)
  read c i countFirst t aw key hr ht hn ho := underPrefix_of_keyOf (reads_own (downloadsKeyed hr) ht hn ho)
  handed c policy hr hp := by
    obtain ⟨u, hu, hkey⟩ := (tenants_keysHeld hr).2 policy hp
    exact ⟨u, hu, underPrefix_of_keyOf hkey⟩

end Tenants

end FileProcessing
