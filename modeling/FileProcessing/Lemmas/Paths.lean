import FileProcessing.Lemmas.Attempts
import FileProcessing.Lemmas.Seen

/-!
# The paths of the uploads

The UUID drawn for an upload is used up when its row is inserted, so no two uploads have the same path, whatever the run.
-/

namespace FileProcessing

variable {cfg : Config} {ok : System → Action → Prop} {s s' : System} {a : Action}

/-- The UUID was drawn for an upload that is not about to be inserted. -/
def Consumed (s : System) (random : Uuid) : Prop :=
  random ∈ s.world.issued ∧
    ∀ (i : Nat) u input key, s.tasks[i]? = some (.createUploadUrl u input (.create key)) → ¬ IsUploadKey key random

/-- A UUID that is used up stays so. -/
theorem consumed_step (h : Stepped cfg s a s') {random : Uuid} (hc : Consumed s random) : Consumed s' random := by
  refine ⟨issued_step h hc.1, fun i u input key hi hkey => ?_⟩
  rcases task_back h hi with ⟨t, ht, hm⟩ | ⟨-, hsp⟩
  · obtain ⟨rfl, -⟩ := createUploadUrl_create hm
    exact hc.2 i u input key ht hkey
  · cases hsp with
    | createUploadUrl random' hn ha hp =>
      have hr : random' = random := IsUploadKey.inj ⟨u, _, createUploadUrl_start hp.symm⟩ hkey
      exact hn (hr ▸ hc.1)

/-- The insert of an upload uses up the UUID of its path, which was not used up. -/
theorem upload_inserted (hr : (platform cfg).Reach ok s) (h : Stepped cfg s a s') {i : Nat} {u : Uuid}
    {input : FileService.CreateUploadUrlInput} {key : String} {ch : Choice} {e : Effect}
    (hw : Wrote s a i (.createUploadUrl u input (.create key)) ch e) :
    ∃ r, IsUploadKey key r ∧ Consumed s' r ∧ ¬ Consumed s r := by
  obtain ⟨r, hissued, hkey⟩ := (uploadsKeyed hr).issued hw.task
  refine ⟨r, hkey, ⟨issued_step h hissued, fun j u' input' key' hj hkey' => ?_⟩, fun hc => hc.2 i u input key hw.task hkey⟩
  obtain ⟨pick, rfl⟩ := hw.action
  rcases task_back h hj with ⟨t, ht, hm⟩ | ⟨-, hsp⟩
  · obtain ⟨rfl, hact⟩ := createUploadUrl_create hm
    rw [(uploadsKeyed hr).unique hw.task ht hkey hkey'] at hact
    exact hact rfl
  · cases hsp with
    | createUploadUrl _ _ ha => cases ha

/-! ## The owners of the paths -/

/-- A row is stored under a key of its user, and so is a row that is about to be inserted for an upload. -/
structure PathsOwned (s : System) : Prop where
  rows : ∀ file ∈ s.world.db.files, KeyOf file.userId file.storagePath
  uploads : ∀ (i : Nat) u input key, s.tasks[i]? = some (.createUploadUrl u input (.create key)) → KeyOf u key

/-- A step keeps the paths owned. -/
theorem pathsOwned_step (hr : (platform cfg).Reach ok s) (h : Stepped cfg s a s') (hI : PathsOwned s) : PathsOwned s' where
  rows file hfile := by
    rcases files_step h hfile with hold | ⟨i, t, ch, e, hw, ⟨r, hrow, hf⟩ | ⟨data, rfl, rfl, -⟩⟩
    · exact hI.rows file hold
    · obtain ⟨-, hu, hp, -⟩ := hf.core
      rw [hu, hp]
      exact hI.rows r hrow
    · rcases file_writer hr hw with ⟨u, input, key, rfl, rfl⟩ | ⟨k, data', p, rfl, hg⟩
      · exact hI.uploads i u input key hw.task
      · obtain ⟨hu, -, name, hp⟩ := isOutput_of_stage hg
        have hkey : KeyOf data.userId data.storagePath := Or.inr ⟨data'.jobId, name, by rw [hp, hu]⟩
        exact hkey
  uploads i u input key hi := by
    rcases task_back h hi with ⟨t, ht, hm⟩ | ⟨-, hsp⟩
    · obtain ⟨rfl, -⟩ := createUploadUrl_create hm
      exact hI.uploads i u input key ht
    · cases hsp with
      | createUploadUrl random _ _ hp => exact Or.inl ⟨random, _, createUploadUrl_start hp.symm⟩

/-- In every reachable state. -/
theorem pathsOwned (h : (platform cfg).Reach ok s) : PathsOwned s := by
  refine h.invariant ?_ (fun s a s' hr hI _ hs => pathsOwned_step hr (step_cases hs) hI)
  rintro s rfl
  exact ⟨fun file hfile => absurd hfile (Table.not_mem_empty file), fun i u input key hi => nomatch hi⟩

/-! ## The uploads and their rows -/

/-- The path is an upload's whose UUID is used up, or an output's. -/
def KnownUpload (s : System) (path : String) : Prop :=
  (∃ random, IsUploadKey path random ∧ Consumed s random) ∨ ∃ jobId, IsOutputKey path jobId

/-- The paths are of the same upload. -/
def SameUpload (path path' : String) : Prop := ∃ random, IsUploadKey path random ∧ IsUploadKey path' random

/-- A step keeps the uploads registered: the row it inserts is under a key that was not used up, or under an output's. -/
theorem uploadsRegistered_step (hr : (platform cfg).Reach ok s) (h : Stepped cfg s a s')
    (hI : Registered KnownUpload SameUpload s) :
    Registered KnownUpload SameUpload s' := by
  refine registered_step h (fun ⟨r, hp, hq⟩ => ⟨r, hq, hp⟩) ?_ ?_ hI
  · rintro p (⟨r, hkey, hc⟩ | hout)
    · exact Or.inl ⟨r, hkey, consumed_step h hc⟩
    · exact Or.inr hout
  · rintro x ⟨i, t, ch, data, hw, hexec, rfl, -⟩
    rcases file_writer hr hw with ⟨u, input, key, rfl, rfl⟩ | ⟨k, data', p, rfl, hg⟩
    · obtain ⟨r, hkey, hc, hno⟩ := upload_inserted hr h hw
      refine ⟨Or.inl ⟨r, hkey, hc⟩, ?_⟩
      rintro p (⟨r', hkey', hc'⟩ | ⟨j, hout⟩) ⟨r₀, hp, hq⟩
      · exact hno ((hkey'.inj hp).trans (hq.inj hkey) ▸ hc')
      · exact hp.not_output hout
    · have hkey := outputKey_of_storing hg
      refine ⟨Or.inr ⟨_, hkey⟩, ?_⟩
      rintro p - ⟨r, -, hq⟩
      exact hq.not_output hkey

/-- In every reachable state the paths of the rows seen are an upload's or an output's, and one upload has one row. -/
theorem uploadsRegistered (h : (platform cfg).Reach ok s) : Registered KnownUpload SameUpload s := by
  refine h.invariant ?_ (fun s a s' hr hI _ hs => uploadsRegistered_step hr (step_cases hs) hI)
  rintro s rfl
  exact ⟨fun hx => absurd hx (not_seen_empty _), fun hx => absurd hx (not_seen_empty _)⟩

/-! ## The ids of the owners -/

/-- The ids a session was begun for have been issued, and so have those of the users the tasks, the entries of the queue and the rows of
`files` are for. -/
structure OwnersIssued (s : System) : Prop where
  sessions : ∀ id ∈ s.world.sessions, id ∈ s.world.issued
  requests : ∀ {i : Nat} {t r}, s.tasks[i]? = some t → t.request = some r → r.userId ∈ s.world.issued
  entries : ∀ {k : Nat} {job : BullJob}, s.world.queue[k]? = some job → job.payload.userId ∈ s.world.issued
  files : ∀ file ∈ s.world.db.files, file.userId ∈ s.world.issued

/-- A session after a step was one before it, or its id has just been issued. -/
theorem sessions_step (h : Stepped cfg s a s') : ∀ id ∈ s'.world.sessions, id ∈ s.world.sessions ∨ id ∈ s'.world.issued := by
  intro id hid
  cases h with
  | @exec i pick ch t aw ht hn =>
    have hsame := (frame_apply ch s.world aw.call.effect).2.1
    exact Or.inl (hsame ▸ hid)
  | guestSession new => exact (List.mem_cons.1 hid).elim (fun he => Or.inr (he ▸ List.mem_cons_self)) Or.inl
  | register user => exact (List.mem_cons.1 hid).elim (fun he => Or.inr (he ▸ List.mem_cons_self)) Or.inl
  | request | startSweep | reject | upload | deliver | stall | settle | tick => exact Or.inl hid

/-- One step. -/
theorem ownersIssued_step (hr : (platform cfg).Reach ok s) (h : Stepped cfg s a s') (hI : OwnersIssued s) : OwnersIssued s' where
  sessions id hid := by
    rcases sessions_step h id hid with hold | hnew
    · exact issued_step h (hI.sessions id hold)
    · exact hnew
  requests hi hreq := by
    rcases request_back h hi hreq with ⟨t, ht, hold⟩ | hsession
    · exact issued_step h (hI.requests ht hold)
    · exact issued_step h (hI.sessions _ hsession)
  entries hk := by
    rcases entry_back h hk with ⟨job, hold, hm⟩ | ⟨i, u, f, ty, o, row, ch, -, -, ht, rfl⟩
    · rw [hm.payload]
      exact issued_step h (hI.entries hold)
    · exact issued_step h (hI.requests ht rfl)
  files file hfile := by
    refine issued_step h ?_
    rcases files_step h hfile with hold | ⟨i, t, ch, e, hw, ⟨r, hrow, hf⟩ | ⟨data, rfl, rfl, -⟩⟩
    · exact hI.files file hold
    · rw [hf.core.2.1]
      exact hI.files r hrow
    · rcases file_writer hr hw with ⟨u, input, key, rfl, rfl⟩ | ⟨k, data', p, rfl, hg⟩
      · exact hI.requests hw.task rfl
      · obtain ⟨job, hk, rfl⟩ := (locked hr).entry hw.task
        have howner : data.userId = job.payload.userId := (isOutput_of_stage hg).1
        have hissued : data.userId ∈ s.world.issued := howner ▸ hI.entries hk
        exact hissued

/-- In every reachable state. -/
theorem ownersIssued (h : (platform cfg).Reach ok s) : OwnersIssued s := by
  refine h.invariant ?_ (fun s a s' hr hI _ hs => ownersIssued_step hr (step_cases hs) hI)
  rintro s rfl
  constructor
  · intro id hid
    cases hid
  · intro i t r hi
    cases hi
  · intro k job hk
    cases hk
  · intro file hfile
    exact absurd hfile (Table.not_mem_empty file)

end FileProcessing
