import FileProcessing.Lemmas.Objects

/-!
# Ready files and their objects

Rows and objects are written apart: an output's object is put before its row is inserted, an upload's row is made ready after its
object was checked, and a sweep removes the object before the row. They agree on the ready files in the runs where an output is
created once (a second attempt replaces the object of the first, and one object is not enough for two rows), and where no sweep
fails between the object and the row of a file that is ready, or about to be.
-/

namespace FileProcessing

variable {cfg : Config} {ok : System → Action → Prop} {s s' : System} {a : Action}

/-- The object of the row is in the bucket, with the size of the row. -/
def Stored (s : System) (file : FileRow) : Prop :=
  ∃ object, s.world.bucket file.storagePath = some object ∧ (object.size : Int) = file.size

/-- A sweep is in the middle of the file: it has dealt with its object, not with its row. -/
def Sweeping (s : System) (fileId : Uuid) : Prop :=
  ∃ (i : Nat) (kind : SweepKind) (g : FileRow) (rest : List FileRow) (count : Nat),
    s.tasks[i]? = some (.sweep kind (.removeRow g rest count)) ∧ g.id = fileId

/-- Database and storage agree on ready files: where no sweep is in the middle of a file, every ready row has its object. -/
def ReadyStored (cfg : Config) (ok : System → Action → Prop) : Prop :=
  ∀ s, (platform cfg).Reach ok s → (∀ fileId, ¬ Sweeping s fileId) →
    ∀ row ∈ s.world.db.files, row.status = .ready → Stored s row

/-- The row is ready, or pending with a confirmation past its check. -/
def ReadyOrConfirmed (s : System) (row : FileRow) : Prop :=
  row.status = .ready ∨
    row.status = .pending ∧ ∃ (i : Nat) (u : Uuid) (file : FileRow), s.tasks[i]? = some (.confirmUpload u row.id (.markReady file))

/-- The attempt is about to insert the row of its output, or none follows it. -/
def HasObject (job : BullJob) (g : Stage) : Prop := (∃ file, g = .storing file) ∨ NoneFollows job g

/-- The conditions on a step: an output is created once; an attempt that does not hold its lock does not put its object over that of
one past it; and the call by which a sweep removes the row of a file is not rejected when the file is ready, or past the check of
its confirmation, and its object is gone. -/
structure AgreementKept (s : System) (a : Action) : Prop where
  once : OutputOnce s a
  put : ∀ i pick ch k data p b, a = .exec i pick ch → s.tasks[i]? = some (.attempt k data p b) → p.puts = true →
    HoldsLock s i k ∨ ¬ Past HasObject s k
  removed : ∀ (i pick : Nat) e kind g rest count, a = .reject i pick e →
    s.tasks[i]? = some (.sweep kind (.removeRow g rest count)) →
    ∀ row ∈ s.world.db.files, row.id = g.id → ReadyOrConfirmed s row → Stored s row

/-! ## What a step does to an object -/

/-- A row of the same file is stored with it. -/
theorem Stored.of_same {x y : FileRow} (h : Stored s x) (he : SameFile x y) : Stored s y := by
  unfold Stored
  rw [← he.storagePath, ← he.size]
  exact h

/-- An attempt puts no object for a job that has its output. -/
theorem not_made_of_put (hr : (platform cfg).Reach ok s) (hok : AgreementKept s a) {i pick k : Nat} {ch : Choice} {data : JobPayload}
    {p : Attempt} {b : Bool} (ha : a = .exec i pick ch) (ht : s.tasks[i]? = some (.attempt k data p b)) (hp : p.puts = true)
    (hg : p.stage data = .working) : ¬ Made s data.jobId := by
  intro hm
  rcases hok.put i pick ch k data p b ha ht hp with hl | hno
  · obtain ⟨job, hn | ⟨⟨e, hn⟩, -⟩⟩ := noneFollows_of_made hr hm hl ht <;> rw [hg] at hn
    · exact hn
    · cases hn
  · obtain ⟨l, job, hk, hj, hpast⟩ := hm
    obtain ⟨entry, hentry, hdata⟩ := (locked hr).entry ht
    have hlk : l = k := (oneEntry hr).entries hk hentry (by rw [hdata, hj])
    exact hno (hlk ▸ hpast.mono (fun _ _ => Or.inr))

/-- A stored row stays stored, or a sweep is in the middle of it. -/
theorem stored_step (hr : (platform cfg).Reach OutputOnce s) (hok : AgreementKept s a) (h : Stepped cfg s a s') {x : FileRow}
    (hx : x ∈ s.world.db.files) (hs : Stored s x) : Stored s' x ∨ Sweeping s' x.id := by
  rcases bucket_step h x.storagePath with hb | ⟨policy, size, -, hp, hmin, hmax, hkey, hb⟩ |
    ⟨i, t, ch, e, hw, ⟨size, rfl, -⟩ | ⟨rfl, -⟩⟩
  · refine Or.inl ?_
    unfold Stored
    rw [hb]
    exact hs
  · obtain ⟨-, hlow, hhigh⟩ := (policiesAdmit hr policy hp).2 x (.row hx) hkey.symm
    refine Or.inl ⟨⟨size⟩, hb, ?_⟩
    rw [hlow] at hmin
    rw [hhigh] at hmax
    exact Int.le_antisymm hmax hmin
  · obtain ⟨k, data, p, b, rfl, hg, hp, hkey⟩ := object_putter hw
    obtain ⟨pick, ha⟩ := hw.action
    rcases (pathsRegistered hr).known (.row hx) with ⟨r, hup, -⟩ | ⟨j, hout, hm⟩
    · exact absurd hkey hup.not_output
    · exact absurd (hout.inj hkey ▸ hm) (not_made_of_put hr hok ha hw.task hp hg)
  · obtain ⟨kind, g, rest, count, rfl, hkey⟩ := object_remover hw
    have hid : g.id = x.id :=
      (pathsRegistered hr).unique (.item i kind _ hw.task List.mem_cons_self) (.row hx) (Or.inl hkey)
    obtain ⟨pick, rfl⟩ := hw.action
    refine Or.inr ⟨i, kind, g, rest, count, ?_, hid⟩
    obtain ⟨t', ht', hm⟩ := task_forward h hw.task
    cases hm with
    | waits _ hwait => exact absurd rfl hwait
    | sweep hn _ he =>
      cases hn
      cases he
      exact ht'

/-- A sweep stays in the middle of a file until its call settles. -/
theorem sweeping_step (h : Stepped cfg s a s') {fileId : Uuid} (hs : Sweeping s fileId) :
    Sweeping s' fileId ∨ ∃ (i pick : Nat) (kind : SweepKind) (g : FileRow) (rest : List FileRow) (count : Nat),
      s.tasks[i]? = some (.sweep kind (.removeRow g rest count)) ∧ g.id = fileId ∧
        ((∃ e, a = .reject i pick e) ∨ ∃ ch, a = .exec i pick ch) := by
  obtain ⟨i, kind, g, rest, count, hi, hid⟩ := hs
  obtain ⟨t', ht', hm⟩ := task_forward h hi
  cases hm with
  | waits => exact Or.inl ⟨i, kind, g, rest, count, ht', hid⟩
  | @sweep _ _ _ aw r pick _ hr =>
    refine Or.inr ⟨i, pick, kind, g, rest, count, hi, hid, ?_⟩
    cases hr with
    | exec ch => exact Or.inr ⟨ch, rfl⟩
    | reject e => exact Or.inl ⟨e, rfl⟩

/-- Once a sweep has removed the row of a file, the file is deleted or has no row. -/
theorem removed_rows (hr : (platform cfg).Reach ok s) {i pick : Nat} {ch : Choice} (h : Stepped cfg s (.exec i pick ch) s')
    {kind : SweepKind} {g : FileRow} {rest : List FileRow} {count : Nat}
    (hi : s.tasks[i]? = some (.sweep kind (.removeRow g rest count))) {row : FileRow} (hrow : row ∈ s'.world.db.files)
    (hid : row.id = g.id) : row.status = .deleted := by
  have hu : row.userId = g.userId := by
    rcases files_step h hrow with hrow₀ | ⟨_, _, _, _, hw, ⟨row₀, hrow₀, hwr⟩ | ⟨data, rfl, -⟩⟩
    · exact (seenAgree hr row g (.row hrow₀) (.item i kind _ hi List.mem_cons_self) hid).userId
    · rw [← hwr.same_file.userId]
      exact (seenAgree hr row₀ g (.row hrow₀) (.item i kind _ hi List.mem_cons_self) (hwr.same_file.id.trans hid)).userId
    · obtain ⟨pick', ha⟩ := hw.action
      cases ha
      have ht := hw.task
      rw [hi] at ht
      cases ht
      cases hw.writes
  cases kind with
  | pendingUploads =>
    have hw : s'.world = ((Call.softDelete g.userId g.id).exec ch s.world).2 := world_of_exec h hi rfl
    rw [exec_world] at hw
    rw [hw] at hrow
    exact softDelete_rows hrow hid hu
  | guestResources =>
    have hw : s'.world = ((Call.hardDelete g.userId g.id).exec ch s.world).2 := world_of_exec h hi rfl
    rw [exec_world] at hw
    rw [hw] at hrow
    exact absurd hu (hardDelete_rows hrow hid)

/-! ## The invariant -/

/-- The row is stored, or a sweep is in the middle of it. -/
def Covered (s : System) (row : FileRow) : Prop := Stored s row ∨ Sweeping s row.id

/-- A row that is ready, or past the check of its confirmation, stays covered until it is deleted. -/
theorem covered_step (hr : (platform cfg).Reach OutputOnce s) (hok : AgreementKept s a) (h : Stepped cfg s a s') {x : FileRow}
    (hx : x ∈ s.world.db.files) (hready : ReadyOrConfirmed s x) (hc : Covered s x) :
    Covered s' x ∨ ∀ row ∈ s'.world.db.files, row.id = x.id → row.status = .deleted := by
  rcases hc with hs | hs
  · exact Or.inl (stored_step hr hok h hx hs)
  · rcases sweeping_step h hs with hs | ⟨i, pick, kind, g, rest, count, hi, hid, ⟨e, rfl⟩ | ⟨ch, rfl⟩⟩
    · exact Or.inl (Or.inr hs)
    · have hstored : Stored s x := hok.removed i pick e kind g rest count rfl hi x hx hid.symm hready
      refine Or.inl (Or.inl ?_)
      unfold Stored
      rw [world_of_reject h]
      exact hstored
    · exact Or.inr (fun row hrow he => removed_rows hr h hi hrow (he.trans hid.symm))

/-- A confirmation past its check was there before, or has just found its object. -/
theorem past_check_back (h : Stepped cfg s a s') {i : Nat} {u f : Uuid} {file : FileRow}
    (hi : s'.tasks[i]? = some (.confirmUpload u f (.markReady file))) :
    s.tasks[i]? = some (.confirmUpload u f (.markReady file)) ∨
      s.tasks[i]? = some (.confirmUpload u f (.statObject file)) ∧ Stored s file := by
  rcases task_back h hi with ⟨t, ht, hm⟩ | ⟨-, hsp⟩
  · obtain ⟨p, rfl, hmv⟩ := confirm_moves hm
    cases hmv with
    | waits => exact Or.inl ht
    | checks _ _ _ _ object ho hs => exact Or.inr ⟨ht, object, ho, hs⟩
  · cases hsp

/-- Every row that is ready, or past the check of its confirmation, is covered; and an attempt that holds its lock and is about to
insert the row of its output has put its object. -/
structure Agreement (s : System) : Prop where
  rows : ∀ row ∈ s.world.db.files, ReadyOrConfirmed s row → Covered s row
  storing : ∀ (i k : Nat) (job : BullJob) data p file, s.world.queue[k]? = some job → job.state = .active i →
    s.tasks[i]? = some (.attempt k data p false) → p.stage data = .storing file →
    ∃ object, s.world.bucket file.storagePath = some object ∧ (object.size : Int) = file.size

/-- A step keeps a row covered that was there before it. -/
theorem rows_step (hr : (platform cfg).Reach OutputOnce s) (hok : AgreementKept s a) (h : Stepped cfg s a s')
    (hI : Agreement s) {row : FileRow} (hrow : row ∈ s.world.db.files) (hrow' : row ∈ s'.world.db.files)
    (hready : ReadyOrConfirmed s' row) : Covered s' row := by
  have hkept (hs : ReadyOrConfirmed s row) : Covered s' row := by
    rcases covered_step hr hok h hrow hs (hI.rows row hrow hs) with hc | hdel
    · exact hc
    · have hd := hdel row hrow' rfl
      rcases hs with hs | ⟨hs, -⟩ <;> rw [hs] at hd <;> cases hd
  rcases hready with hst | ⟨hst, i, u, file, hi⟩
  · exact hkept (Or.inl hst)
  · rcases past_check_back h hi with hi | ⟨hi, hs⟩
    · exact hkept (Or.inr ⟨hst, i, u, file, hi⟩)
    · have hid := confirmsOwn hr i u _ _ file hi (Or.inl rfl)
      have hsame := seenAgree hr file row (.confirmed i u _ _ hi (Or.inl rfl)) (.row hrow) hid
      exact stored_step hr hok h hrow (hs.of_same hsame)

/-- An output that is inserted is stored. -/
theorem inserted_stored (hok : OutputOnce s a) (h : Stepped cfg s a s')
    (hI : Agreement s) {i k : Nat} {data : JobPayload} {p : Attempt} {ch : Choice} {e : Effect} {file : NewFile}
    (hw : Wrote s a i (.attempt k data p false) ch e) (hg : p.stage data = .storing file) :
    ∃ object, s'.world.bucket file.storagePath = some object ∧ (object.size : Int) = file.size := by
  obtain ⟨pick, rfl⟩ := hw.action
  obtain ⟨job, hk, hact⟩ := hok.inserted i pick ch k data p false file rfl hw.task hg
  have hstored := hI.storing i k job data p file hk hact hw.task hg
  rcases bucket_step h file.storagePath with hb | ⟨policy, size, ha, -⟩ | ⟨j, t, ch', e', hw', hput⟩
  · rw [hb]
    exact hstored
  · cases ha
  · obtain ⟨pick', ha⟩ := hw'.action
    cases ha
    have ht := hw'.task
    rw [hw.task] at ht
    cases ht
    rcases hput with ⟨size, rfl, -⟩ | ⟨rfl, -⟩
    · obtain ⟨_, _, _, _, ht, hg', -⟩ := object_putter hw'
      cases ht
      rw [hg] at hg'
      cases hg'
    · obtain ⟨_, _, _, _, ht, -⟩ := object_remover hw'
      cases ht

/-- A step keeps rows and objects in agreement. -/
theorem agreement_rows_step (hr : (platform cfg).Reach OutputOnce s) (hok : AgreementKept s a) (h : Stepped cfg s a s')
    (hI : Agreement s) {row' : FileRow} (hrow' : row' ∈ s'.world.db.files) (hready : ReadyOrConfirmed s' row') :
    Covered s' row' := by
  rcases files_step h hrow' with hrow | ⟨i, t, ch, e, hw, ⟨row, hrow, hwr⟩ | ⟨data, rfl, hnew, hn, -⟩⟩
  · exact rows_step hr hok h hI hrow hrow' hready
  · cases hwr with
    | same => exact rows_step hr hok h hI hrow hrow' hready
    | deleted => rcases hready with hst | ⟨hst, -⟩ <;> cases hst
    | ready _ hp =>
      obtain ⟨file, rfl⟩ := ready_marker hw
      have hs : ReadyOrConfirmed s row := Or.inr ⟨hp, i, _, file, hw.task⟩
      rcases covered_step hr hok h hrow hs (hI.rows row hrow hs) with (hc | hc) | hdel
      · exact Or.inl hc
      · exact Or.inr hc
      · cases hdel _ hrow' rfl
  · rcases hready with hst | ⟨-, j, u, file, hj⟩
    · rcases file_writer hr hw with ⟨u, input, key, rfl, rfl⟩ | ⟨k, data', p, rfl, hg⟩
      · rw [hnew] at hst
        cases hst
      · rw [hnew]
        exact Or.inl (inserted_stored hok.once h hI hw hg)
    · have hissued : row'.id ∈ s.world.issued := by
        rcases past_check_back h hj with hj | ⟨hj, -⟩
        · rw [← confirmsOwn hr j u _ _ file hj (Or.inr (Or.inl rfl))]
          exact seenIssued hr file (.confirmed j u _ _ hj (Or.inr (Or.inl rfl)))
        · rw [← confirmsOwn hr j u _ _ file hj (Or.inl rfl)]
          exact seenIssued hr file (.confirmed j u _ _ hj (Or.inl rfl))
      rw [hnew] at hissued
      exact absurd hissued hn

/-- The object of an output that waits to be inserted stays while its attempt holds the lock. -/
theorem storing_waits (hr : (platform cfg).Reach OutputOnce s) (hok : AgreementKept s a) (h : Stepped cfg s a s')
    (hI : Agreement s) {i k : Nat} {job : BullJob} {p : Attempt} {file : NewFile} (hk : s.world.queue[k]? = some job)
    (hact : job.state = .active i) (ht : s.tasks[i]? = some (.attempt k job.payload p false))
    (hg : p.stage job.payload = .storing file) (hw : a.actor ≠ some i) :
    ∃ object, s'.world.bucket file.storagePath = some object ∧ (object.size : Int) = file.size := by
  have hstored := hI.storing i k job _ p file hk hact ht hg
  have hout := outputKey_of_storing hg
  rcases bucket_step h file.storagePath with hb | ⟨policy, size, -, hp, -, -, hkey, -⟩ |
    ⟨j, t, ch, e, hwr, ⟨size, rfl, -⟩ | ⟨rfl, -⟩⟩
  · rw [hb]
    exact hstored
  · obtain ⟨⟨r, hup, -⟩, -⟩ := policiesAdmit hr policy hp
    exact absurd hout (hkey ▸ hup.not_output)
  · obtain ⟨l, data, p', b, rfl, -, hputs, hkey⟩ := object_putter hwr
    obtain ⟨pick, rfl⟩ := hwr.action
    obtain ⟨job', hl, hdata⟩ := (locked hr).entry hwr.task
    have hkl : l = k := (oneEntry hr).entries hl hk (by rw [hdata, hkey.inj hout])
    subst hkl
    rcases hok.put j pick ch l data p' b rfl hwr.task hputs with ⟨job'', hl', hact'⟩ | hno
    · rw [hk] at hl'
      cases hl'
      rw [hact] at hact'
      cases hact'
      exact absurd rfl hw
    · exact absurd ⟨job, hk, Or.inr (Or.inr ⟨i, p, hact, ht, Or.inl ⟨file, hg⟩⟩)⟩ hno
  · obtain ⟨kind, g, rest, count, rfl, hkey⟩ := object_remover hwr
    rcases (pathsRegistered hr).known (.item j kind _ hwr.task List.mem_cons_self) with ⟨r, hup, -⟩ | ⟨j', hkey', hm⟩
    · rw [hkey] at hup
      exact absurd hout hup.not_output
    · rw [hkey] at hkey'
      exact absurd (hkey'.inj hout ▸ hm) (not_made_of_storing hr ⟨job, hk, hact⟩ ht hg)

/-- An attempt that has come to the insert of its output has just put its object. -/
theorem storing_reached {i pick k : Nat} {ch : Choice} {data : JobPayload} {p p' : Attempt} {b : Bool} {file : NewFile}
    (h : Stepped cfg s (.exec i pick ch) s') (ht : s.tasks[i]? = some (.attempt k data p b))
    (ht' : s'.tasks[i]? = some (.attempt k data p' b)) (hg : p'.stage data = .storing file) :
    ∃ object, s'.world.bucket file.storagePath = some object ∧ (object.size : Int) = file.size := by
  obtain ⟨aw, hn, hw, hnext⟩ := attempt_acts h ht
  rw [ht'] at hnext
  obtain rfl : p' = (aw.resume (aw.call.exec ch s.world).1).1 := by
    simp only [Option.some.injEq, Task.attempt.injEq, true_and, and_true] at hnext
    exact hnext
  have hstep := (attempt_stage hn).2 (aw.call.exec ch s.world).1
  rw [hg] at hstep
  obtain ⟨length, hsize, heff⟩ := hstep.to_storing
  refine ⟨⟨length⟩, ?_, hsize.symm⟩
  rw [hw, exec_world, heff]
  exact if_pos rfl

/-- A step keeps the objects of the outputs that wait to be inserted. -/
theorem agreement_storing_step (hr : (platform cfg).Reach OutputOnce s) (hok : AgreementKept s a) (h : Stepped cfg s a s')
    (hI : Agreement s) {i k : Nat} {job' : BullJob} {data : JobPayload} {p' : Attempt} {file : NewFile}
    (hk' : s'.world.queue[k]? = some job') (hact : job'.state = .active i)
    (hi : s'.tasks[i]? = some (.attempt k data p' false)) (hg : p'.stage data = .storing file) :
    ∃ object, s'.world.bucket file.storagePath = some object ∧ (object.size : Int) = file.size := by
  rcases task_back h hi with ⟨t, ht, hm⟩ | ⟨-, hsp⟩
  · have hlt : i < s.tasks.length := (List.getElem?_eq_some_iff.1 ht).1
    rcases entry_back h hk' with ⟨job, hk, hmk⟩ | ⟨_, _, _, _, _, _, _, -, -, -, rfl⟩
    · cases hm with
      | waits _ hw =>
        obtain ⟨entry, hentry, rfl⟩ := (locked hr).entry ht
        rw [hk] at hentry
        cases hentry
        cases hmk with
        | stays => exact storing_waits hr hok h hI hk hact ht hg hw
        | delivered =>
          cases hact
          exact absurd hlt (Nat.lt_irrefl _)
        | stalled | finished | retries | gaveUp => cases hact
      | @attempt _ _ p _ _ aw r pick hn hr' he =>
        subst he
        cases r with
        | error e =>
          rw [((attempt_stage hn).2 (.error e)).of_error] at hg
          cases hg
        | ok v =>
          obtain ⟨ch, rfl, -⟩ := hr'.of_ok
          exact storing_reached h ht hi hg
    · cases hact
  · cases hsp with
    | attempt _ _ _ _ hp =>
      rw [hp, stage_start] at hg
      cases hg

/-- In every run where the conditions are met rows and objects are in agreement. -/
theorem agreement (h : (platform cfg).Reach AgreementKept s) : Agreement s := by
  refine h.invariant ?_ ?_
  · rintro s rfl
    exact ⟨fun row hrow => absurd hrow (Table.not_mem_empty row), fun i k job data p file hk => (nomatch hk)⟩
  · intro s a s' hr hI hok hs
    have hr₀ : (platform cfg).Reach OutputOnce s := hr.mono (fun _ _ => AgreementKept.once)
    have hst := step_cases hs
    exact ⟨fun row hrow hready => agreement_rows_step hr₀ hok hst hI hrow hready,
      fun i k job data p file hk hact hi hg => agreement_storing_step hr₀ hok hst hI hk hact hi hg⟩

/-! ## The result -/

/-- Database and storage agree on ready files in every run where an output is created once and no sweep fails in the middle of a
file that is ready, or about to be. -/
theorem ready_stored (cfg : Config) : ReadyStored cfg AgreementKept := by
  intro s hr hsweep row hrow hready
  rcases (agreement hr).rows row hrow (Or.inl hready) with hs | hs
  · exact hs
  · exact absurd hs (hsweep row.id)

/-- A job is run again after its output was inserted, and meanwhile the client has put another image of the same length under the
policy of its input: the second attempt puts 8 bytes over the 7 of the first. -/
def replacedOutput : List Action :=
  Trace.repeated ++ .upload ⟨Trace.key, 900000, 7, 7, "image/png"⟩ 7 :: List.replicate 13 (.exec 5 0 ⟨Trace.uuid 0, 8, []⟩)

/-- The task is not in the middle of a file. -/
def Task.betweenItems : Task → Bool
  | .sweep _ (.removeRow _ _ _) => false
  | _ => true

/-- A ready row has an object of another size, or none. -/
def disagrees (s : System) : Bool :=
  s.tasks.all Task.betweenItems && s.world.db.files.rows.any (fun row => row.status = .ready &&
    !(s.world.bucket row.storagePath).any (fun object => (object.size : Int) = row.size))

/-- Database and storage do not agree on ready files in every run: the second attempt of a job replaces the object of the row that
the first has inserted. -/
theorem output_replaced : ¬ ReadyStored Config.default Lts.Free := by
  intro h
  have hrun : ((platform Config.default).run System.empty replacedOutput).any disagrees = true := by
    decide +kernel
  obtain ⟨s, hs, hp⟩ := Trace.reach hrun
  unfold disagrees at hp
  rw [Bool.and_eq_true, List.all_eq_true, List.any_eq_true] at hp
  obtain ⟨hbetween, row, hrow, hr⟩ := hp
  rw [Bool.and_eq_true, decide_eq_true_eq, Bool.not_eq_true'] at hr
  obtain ⟨object, hobject, hsize⟩ := h s hs (by
    rintro fileId ⟨i, kind, g, rest, count, hi, -⟩
    cases hbetween _ (List.mem_of_getElem? hi)) row hrow hr.1
  have hno := hr.2
  rw [hobject] at hno
  simp [hsize] at hno

end FileProcessing
