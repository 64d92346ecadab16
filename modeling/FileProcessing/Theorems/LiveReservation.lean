import FileProcessing.Lemmas.Paths
import FileProcessing.Lemmas.References

/-!
# The sweep of pending uploads and the policies that still hold

The API dates a policy when the row is inserted and stays valid for `PRESIGNED_URL_TTL_SECONDS`; the worker takes a row for abandoned
once it is older than `PENDING_UPLOAD_TTL_SECONDS`. The two are configured apart. No reservation is swept while its policy holds in the
runs where every policy expires within the time the row is left alone.
-/

namespace FileProcessing

variable {cfg : Config} {ok : System → Action → Prop} {s s' : System} {a : Action} {key : String} {Q : Time → Prop}

/-! ## The statement -/

/-- A policy of the file has been signed and has not expired. -/
def ReservationLive (w : World) (file : FileRow) : Prop := ∃ policy ∈ w.policies, policy.key = file.storagePath ∧ w.now ≤ policy.expires

/-- The sweep soft-deletes no pending file whose reservation is live. -/
def LiveSpared (cfg : Config) (ok : System → Action → Prop) : Prop :=
  ∀ s s' (i pick : Nat) ch item rest count, (platform cfg).Reach ok s →
    s.tasks[i]? = some (.sweep .pendingUploads (.removeRow item rest count)) → (platform cfg).step s (.exec i pick ch) = some s' →
    ∀ file ∈ s.world.db.files, FileRepository.owned item.userId item.id file = true → file.status = .pending →
      ¬ ReservationLive s.world file

/-- The condition on a step: a policy is dated to expire before the sweep may take its row. -/
def ExpiresFirst (cfg : Config) (s : System) (a : Action) : Prop :=
  ∀ (i pick : Nat) ch u input file, a = .exec i pick ch → s.tasks[i]? = some (.createUploadUrl u input (.expiresAt file)) →
    s.world.now + cfg.presignedUrlTtlSeconds * 1000 ≤ file.createdAt + cfg.pendingUploadTtlSeconds * 1000

/-! ## Time -/

/-- Time does not go back. -/
theorem now_step (h : Stepped cfg s a s') : s.world.now ≤ s'.world.now := by
  cases h with
  | @exec i pick ch t aw ht hn =>
    have hsame := (frame_apply ch s.world aw.call.effect).2.2
    exact Int.le_of_eq hsame.symm
  | tick ms => exact Int.le_add_of_nonneg_right (Int.natCast_nonneg ms)
  | request | startSweep | reject | upload | deliver | stall | settle | guestSession | register => exact Int.le_refl _

/-- A write keeps the time at which a row was created. -/
theorem FileWrite.createdAt {now : Time} {e : Effect} {r r' : FileRow} (h : FileWrite now e r r') : r'.createdAt = r.createdAt := by
  cases h <;> rfl

/-! ## The row under the key of an upload -/

/-- The key is that of an upload whose row has been inserted, and the time its row was created satisfies `Q`. -/
structure KeyDated (s : System) (key : String) (Q : Time → Prop) : Prop where
  used : ∃ random, IsUploadKey key random ∧ Consumed s random
  dated : ∀ file ∈ s.world.db.files, file.storagePath = key → Q file.createdAt

/-- The key of a row that is inserted was not used up, or is an output's. -/
theorem inserted_key (hr : (platform cfg).Reach ok s) (h : Stepped cfg s a s') {i : Nat} {t : Task} {ch : Choice} {data : NewFile}
    (hw : Wrote s a i t ch (.createFile data)) :
    (∃ r, IsUploadKey data.storagePath r ∧ Consumed s' r ∧ ¬ Consumed s r) ∨ ∃ j, IsOutputKey data.storagePath j := by
  rcases file_writer hr hw with ⟨u, input, key, rfl, rfl⟩ | ⟨k, data', p, rfl, hg⟩
  · exact Or.inl (upload_inserted hr h hw)
  · exact Or.inr ⟨_, outputKey_of_storing hg⟩

/-- It stays dated so: no other row is inserted under it. -/
theorem keyDated_step (hr : (platform cfg).Reach ok s) (h : Stepped cfg s a s') (hI : KeyDated s key Q) : KeyDated s' key Q := by
  obtain ⟨random, hkey, hused⟩ := hI.used
  refine ⟨⟨random, hkey, consumed_step h hused⟩, fun file hmem hpath => ?_⟩
  rcases files_step h hmem with hold | ⟨i, t, ch, e, hw, ⟨r, hrow, hf⟩ | ⟨data, rfl, rfl, -⟩⟩
  · exact hI.dated file hold hpath
  · rw [hf.createdAt]
    exact hI.dated r hrow (hf.core.2.2.1.symm.trans hpath)
  · have hpath : data.storagePath = key := hpath
    rcases inserted_key hr h hw with ⟨r, hkey', -, hno⟩ | ⟨j, hout⟩
    · exact absurd (hkey.inj (hpath ▸ hkey') ▸ hused) hno
    · exact absurd (hpath ▸ hout) hkey.not_output

/-- The insert of an upload dates its key. -/
theorem keyDated_of_insert (hr : (platform cfg).Reach ok s) (h : Stepped cfg s a s') {i pick : Nat} {u : Uuid}
    {input : FileService.CreateUploadUrlInput} {ch : Choice} {file : FileRow} (ha : a = .exec i pick ch)
    (ht : s.tasks[i]? = some (.createUploadUrl u input (.create key)))
    (hx : ((Call.createFile ⟨u, input.filename, input.mimeType, input.size, key, .pending⟩).exec ch s.world).1 = .ok file) :
    file.storagePath = key ∧ KeyDated s' key (· = file.createdAt) := by
  subst ha
  have hw : Wrote s (.exec i pick ch) i (.createUploadUrl u input (.create key)) ch
      (.createFile ⟨u, input.filename, input.mimeType, input.size, key, .pending⟩) := ⟨⟨pick, rfl⟩, ht, cfg, pick, _, rfl, rfl⟩
  obtain ⟨r, hkey, hused, hno⟩ := upload_inserted hr h hw
  have hworld : s'.world = ((Call.createFile ⟨u, input.filename, input.mimeType, input.size, key, .pending⟩).exec ch s.world).2 :=
    world_of_exec h ht rfl
  rcases createFile_cases ch s.world ⟨u, input.filename, input.mimeType, input.size, key, .pending⟩ with
    ⟨e, he⟩ | ⟨files, -, hfiles, he⟩ <;> rw [he] at hx hworld <;> cases hx
  refine ⟨rfl, ⟨r, hkey, hused⟩, fun x hmem hpath => ?_⟩
  rw [hworld] at hmem
  rcases (hfiles x).1 hmem with hold | rfl
  -- a row that was there is not under the key: the UUID of the key had not been used up
  · rcases (uploadsRegistered hr).known (.row hold) with ⟨r', hkey', hused'⟩ | ⟨j, hout⟩
    · exact absurd (hkey.inj (hpath ▸ hkey') ▸ hused') hno
    · exact absurd (hpath ▸ hout) hkey.not_output
  · rfl

/-! ## The policies -/

/-- A policy that expires at the time is out of date before a row created then may be swept. -/
def SweptAfter (cfg : Config) (expires created : Time) : Prop := expires ≤ created + cfg.pendingUploadTtlSeconds * 1000

/-- The uploads and the policies are dated: no row under the key of a policy may be swept before the policy expires. -/
structure PoliciesDated (cfg : Config) (s : System) : Prop where
  created : ∀ (i : Nat) u input file, s.tasks[i]? = some (.createUploadUrl u input (.expiresAt file)) →
    KeyDated s file.storagePath (· = file.createdAt)
  presigned : ∀ (i : Nat) u input file policy, s.tasks[i]? = some (.createUploadUrl u input (.presign file policy)) →
    KeyDated s policy.key (SweptAfter cfg policy.expires)
  signed : ∀ policy ∈ s.world.policies, KeyDated s policy.key (SweptAfter cfg policy.expires)

/-- A policy is dated when its row has been inserted. -/
theorem dates_now {i : Nat} {u : Uuid} {input : FileService.CreateUploadUrlInput} {file file' : FileRow} {policy : PostPolicy}
    (hm : TaskMoves cfg s a i (.createUploadUrl u input (.expiresAt file)) (.createUploadUrl u input (.presign file' policy))) :
    (∃ pick ch, a = .exec i pick ch) ∧ policy.key = file.storagePath ∧
      policy.expires = s.world.now + cfg.presignedUrlTtlSeconds * 1000 := by
  cases hm with
  | @createUploadUrl _ _ _ _ aw r pick hn hr he =>
    cases hn
    cases r with
    | error e => cases he
    | ok now =>
      obtain ⟨ch, ha, hx⟩ := hr.of_ok
      cases hx
      cases he
      exact ⟨⟨pick, ch, ha⟩, rfl, rfl⟩

/-- The rows under the key of an upload that has been inserted were created when its row was. -/
theorem reserved_step (hr : (platform cfg).Reach ok s) (h : Stepped cfg s a s') (hI : PoliciesDated cfg s) (i : Nat) (u : Uuid)
    (input : FileService.CreateUploadUrlInput) (file : FileRow) (hi : s'.tasks[i]? = some (.createUploadUrl u input (.expiresAt file))) :
    KeyDated s' file.storagePath (· = file.createdAt) := by
  rcases task_back h hi with ⟨t, ht, hm⟩ | ⟨-, hsp⟩
  · obtain ⟨p, rfl, hmv⟩ := reserve_moves hm
    cases hmv with
    | waits => exact keyDated_step hr h (hI.created i u input file ht)
    | creates pick ch ha key _ hx =>
      obtain ⟨hpath, hdated⟩ := keyDated_of_insert hr h ha ht hx
      exact hpath ▸ hdated
  · rcases reserve_spawns hsp with ⟨e, he⟩ | ⟨key, he⟩ <;> cases he

/-- The policy that is about to be signed expires before the sweep may take its row. -/
theorem dated_step (hr : (platform cfg).Reach ok s) (h : Stepped cfg s a s') (hok : ExpiresFirst cfg s a)
    (hI : PoliciesDated cfg s) (i : Nat) (u : Uuid) (input : FileService.CreateUploadUrlInput) (file : FileRow) (policy : PostPolicy)
    (hi : s'.tasks[i]? = some (.createUploadUrl u input (.presign file policy))) :
    KeyDated s' policy.key (SweptAfter cfg policy.expires) := by
  rcases task_back h hi with ⟨t, ht, hm⟩ | ⟨-, hsp⟩
  · obtain ⟨p, rfl, hmv⟩ := reserve_moves hm
    cases hmv with
    | waits => exact keyDated_step hr h (hI.presigned i u input file policy ht)
    | dates _ now =>
      obtain ⟨⟨pick, ch, ha⟩, -, hexpires⟩ := dates_now hm
      have hfirst := hok i pick ch u input file ha ht
      have hdated := keyDated_step hr h (hI.created i u input file ht)
      refine ⟨hdated.used, fun x hmem hpath => ?_⟩
      unfold SweptAfter
      rw [hexpires, hdated.dated x hmem hpath]
      exact hfirst
  · rcases reserve_spawns hsp with ⟨e, he⟩ | ⟨key, he⟩ <;> cases he

/-- One step. -/
theorem policiesDated_step (hr : (platform cfg).Reach ok s) (h : Stepped cfg s a s') (hok : ExpiresFirst cfg s a)
    (hI : PoliciesDated cfg s) : PoliciesDated cfg s' where
  created := reserved_step hr h hI
  presigned := dated_step hr h hok hI
  signed policy hp := by
    rcases policies_step h hp with hold | ⟨i, t, ch, hw⟩
    · exact keyDated_step hr h (hI.signed policy hold)
    · obtain ⟨u, input, file, rfl⟩ := policy_signer hw
      exact keyDated_step hr h (hI.presigned i u input file policy hw.task)

/-- In every run whose policies expire first. -/
theorem policiesDated (h : (platform cfg).Reach (ExpiresFirst cfg) s) : PoliciesDated cfg s := by
  refine h.invariant ?_ (fun s a s' hr hI hok hs => policiesDated_step hr (step_cases hs) hok hI)
  rintro s rfl
  constructor
  · intro i u input file hi
    cases hi
  · intro i u input file policy hi
    cases hi
  · intro policy hp
    cases hp

/-! ## The items of the sweep -/

/-- The rows of the items are old enough, and so is every row before the cutoff of a sweep that is about to read. -/
structure ItemsOld (cfg : Config) (s : System) : Prop where
  cutoff : ∀ (i : Nat) before, s.tasks[i]? = some (.sweep .pendingUploads (.find before)) →
    before ≤ s.world.now - cfg.pendingUploadTtlSeconds * 1000
  items : ∀ item, HeldItem .pendingUploads s item → item.id ∈ s.world.issued ∧
    ∀ file ∈ s.world.db.files, file.id = item.id → file.createdAt < s.world.now - cfg.pendingUploadTtlSeconds * 1000

/-- A row of the batch is older than the cutoff. -/
theorem old_of_batch {db : Db} {before : Time} {item : FileRow} (h : item ∈ FileRepository.findExpiredPending db before) :
    item.createdAt < before := by
  have hsel := (Table.mem_select.1 h).2
  simp only [Bool.and_eq_true, decide_eq_true_eq] at hsel
  exact hsel.2

/-- The cutoff is taken from the clock. -/
theorem cutoffOld_step (h : Stepped cfg s a s') (hI : ItemsOld cfg s) (i : Nat) (before : Time)
    (hi : s'.tasks[i]? = some (.sweep .pendingUploads (.find before))) : before ≤ s'.world.now - cfg.pendingUploadTtlSeconds * 1000 := by
  have hnow := now_step h
  rcases task_back h hi with ⟨t, ht, hm⟩ | ⟨-, hsp⟩
  · cases hm with
    | waits => exact Int.le_trans (hI.cutoff i before ht) (Int.sub_le_sub_right hnow _)
    | @sweep _ p _ aw r pick hn hr he =>
      cases p with
      | cutoff =>
        cases hn
        cases r with
        | error e => cases he
        | ok now =>
          obtain ⟨ch, -, hx⟩ := hr.of_ok
          cases hx
          cases he
          exact Int.sub_le_sub_right hnow _
      | find =>
        cases hn
        cases r with
        | error e => cases he
        | ok expired =>
          cases expired <;> cases he
      | removeObject =>
        cases hn
        cases he
      | removeRow item rest count =>
        cases hn
        cases r with
        | error e => cases he
        | ok v => cases rest <;> cases he
      | returned | threw => cases hn
  · cases hsp

/-- One step. -/
theorem itemsOld_step (hr : (platform cfg).Reach ok s) (h : Stepped cfg s a s') (hI : ItemsOld cfg s) : ItemsOld cfg s' where
  cutoff := cutoffOld_step h hI
  items item hheld := by
    have later (hissued : item.id ∈ s.world.issued)
        (hold : ∀ file ∈ s.world.db.files, file.id = item.id → file.createdAt < s.world.now - cfg.pendingUploadTtlSeconds * 1000) :
        item.id ∈ s'.world.issued ∧
          ∀ file ∈ s'.world.db.files, file.id = item.id → file.createdAt < s'.world.now - cfg.pendingUploadTtlSeconds * 1000 := by
      refine ⟨issued_step h hissued, fun file hmem hid => ?_⟩
      have hbefore := files_written h hissued (fun now e x y hw hx => hw.createdAt ▸ hx) hold file hmem hid
      exact Int.lt_of_lt_of_le hbefore (Int.sub_le_sub_right (now_step h) _)
    rcases heldItem_back h hheld with hheld | ⟨i, pick, ch, before, -, ht, hbatch⟩
    · exact later (hI.items item hheld).1 (hI.items item hheld).2
    · have hmem : item ∈ s.world.db.files := mem_batch hbatch
      refine later ((issued hr).files item hmem) (fun file hfile hid => ?_)
      rw [s.world.db.files.eq_of_key_eq hfile hmem hid]
      exact Int.lt_of_lt_of_le (old_of_batch hbatch) (hI.cutoff i before ht)

/-- In every reachable state. -/
theorem itemsOld (h : (platform cfg).Reach ok s) : ItemsOld cfg s := by
  refine h.invariant ?_ (fun s a s' hr hI _ hs => itemsOld_step hr (step_cases hs) hI)
  rintro s rfl
  constructor
  · intro i before hi
    cases hi
  · rintro item ⟨i, p, hi, -⟩
    cases hi

/-! ## The main result -/

/-- A policy expires before the sweep takes its row, in every run whose policies are dated so. -/
theorem live_spared (cfg : Config) : LiveSpared cfg (ExpiresFirst cfg) := by
  rintro s s' i pick ch item rest count hr hi - file hmem howned - ⟨policy, hp, hkey, hlive⟩
  simp only [FileRepository.owned, Bool.and_eq_true, decide_eq_true_eq] at howned
  have hold : file.createdAt < s.world.now - cfg.pendingUploadTtlSeconds * 1000 :=
    ((itemsOld hr).items item ⟨i, _, hi, List.mem_cons_self⟩).2 file hmem howned.1
  have hfirst : policy.expires ≤ file.createdAt + cfg.pendingUploadTtlSeconds * 1000 :=
    ((policiesDated hr).signed policy hp).dated file hmem hkey.symm
  have hnow : file.createdAt + cfg.pendingUploadTtlSeconds * 1000 < s.world.now := Int.add_lt_of_lt_sub_right hold
  exact Int.not_le.2 (Int.lt_of_le_of_lt hfirst hnow) hlive

/-! ## A sweep that does not wait -/

/-- Policies that hold for 15 minutes and rows that are left alone for one. -/
def impatient : Config := { Config.default with pendingUploadTtlSeconds := 60 }

/-- A guest reserves an upload; a sweep runs 61 seconds later. -/
def sweptReservation : List Action :=
  [.guestSession (Trace.uuid 1), .request (.createUploadUrl (Trace.uuid 1) ⟨"a.png", "image/png", 7⟩) (Trace.uuid 2), Trace.call 0 10,
    Trace.call 0 0, Trace.call 0 0, .tick 61000, .startSweep .pendingUploads, Trace.call 1 0, Trace.call 1 0, Trace.call 1 0]

/-- The next call of the sweep soft-deletes a pending row whose policy holds. -/
def sweepsLive (s : System) : Bool :=
  match s.tasks[1]? with
  | some (Task.sweep .pendingUploads (.removeRow item _ _)) =>
    s.world.db.files.rows.any (fun file => FileRepository.owned item.userId item.id file && file.status = .pending &&
      s.world.policies.any (fun policy => policy.key = file.storagePath && s.world.now ≤ policy.expires)) &&
        ((platform impatient).step s (Trace.call 1 0)).isSome
  | _ => false

/-- The environments are admitted, and the reservation is swept. -/
theorem live_swept : ¬ LiveSpared impatient Lts.Free := by
  intro h
  have hrun : ((platform impatient).run System.empty sweptReservation).any sweepsLive = true := by decide +kernel
  obtain ⟨s, hr, hsweeps⟩ := Trace.reach hrun
  unfold sweepsLive at hsweeps
  split at hsweeps
  · rename_i item rest count ht
    simp only [Bool.and_eq_true, List.any_eq_true, decide_eq_true_eq] at hsweeps
    obtain ⟨⟨file, hmem, ⟨howned, hpending⟩, policy, hp, hkey, hlive⟩, hstep⟩ := hsweeps
    obtain ⟨s', hs⟩ := Option.isSome_iff_exists.1 hstep
    exact h s s' 1 0 _ item rest count hr ht hs file hmem howned hpending ⟨policy, hp, hkey, hlive⟩
  · cases hsweeps

end FileProcessing
