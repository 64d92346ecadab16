import FileProcessing.Lemmas.Outputs

/-!
# The objects of the bucket

Who puts an object and who removes one, and what the signed policies admit: a policy admits one length, which is the size of
every row under its key.
-/

namespace FileProcessing

variable {cfg : Config} {ok : System → Action → Prop} {s s' : System} {a : Action}

/-- The attempt is about to put the object of its output. -/
def Attempt.puts : Attempt → Bool
  | .compress (.putObject _ _) | .convert (.putObject _ _) => true
  | _ => false

/-- The call of an image processor that puts an object. -/
theorem imageProcess_puts {P : ImageProcessor} {data : JobPayload} {pick : Nat} {p : ImageProcess} {aw : Await (ImageProcess × List Report)}
    {key : String} {size : Nat} (hn : imageProcess P data pick p = some aw) (he : aw.call.effect = .putObject key size) :
    ∃ inputFile length, p = .putObject inputFile length := by
  cases p with
  | putObject f n => exact ⟨f, n, rfl⟩
  | report33 | report66 =>
    simp only [imageProcess, promiseAll] at hn
    split at hn <;> cases hn
    rename_i target _
    cases target <;> cases he
  | returned | threw => cases hn
  | _ =>
    cases hn
    cases he

/-- The default processor puts no object. -/
theorem defaultProcess_puts {data : JobPayload} {pick : Nat} {p : DefaultProcess} {aw : Await (DefaultProcess × List Report)}
    {key : String} {size : Nat} (hn : defaultProcess data pick p = some aw) : aw.call.effect ≠ .putObject key size := by
  intro he
  cases p with
  | report =>
    simp only [defaultProcess, promiseAll] at hn
    split at hn <;> cases hn
    rename_i target _
    cases target <;> cases he
  | returned | threw => cases hn
  | _ =>
    cases hn
    cases he

/-- An object is put by an attempt that works, under a key of its job. -/
theorem object_putter {i : Nat} {t : Task} {ch : Choice} {key : String} {size : Nat}
    (hw : Wrote s a i t ch (.putObject key size)) :
    ∃ k data p b, t = .attempt k data p b ∧ p.stage data = .working ∧ p.puts = true ∧ IsOutputKey key data.jobId := by
  cases hw.writes with
  | attempt k data p b _ hc =>
    refine ⟨k, data, p, b, rfl, ?_⟩
    obtain ⟨cfg, pick, aw, hn, he⟩ := hw.call
    have hputs : p.puts = true := by
      obtain ⟨aw, haw, rfl⟩ := Option.map_eq_some_iff.1 hn
      cases p with
      | compress p | convert p =>
        obtain ⟨aw, hp, rfl⟩ := Option.map_eq_some_iff.1 haw
        obtain ⟨f, n, rfl⟩ := imageProcess_puts hp he
        rfl
      | default p =>
        obtain ⟨aw, hp, rfl⟩ := Option.map_eq_some_iff.1 haw
        exact absurd he (defaultProcess_puts hp)
    generalize p.stage data = g at hc
    cases hc with
    | put name => exact ⟨rfl, hputs, data.userId, name, rfl⟩

/-- An attempt that puts an object goes on to insert the row of that object. -/
theorem put_stores (h : Stepped cfg s a s') {i : Nat} {t : Task} {ch : Choice} {key : String} {size : Nat}
    (hw : Wrote s a i t ch (.putObject key size)) :
    ∃ k data p b file, s'.tasks[i]? = some (.attempt k data p b) ∧ p.stage data = .storing file ∧ file.storagePath = key := by
  obtain ⟨k, data, p, b, rfl, -, hputs, -⟩ := object_putter hw
  obtain ⟨pick, rfl⟩ := hw.action
  obtain ⟨aw, hn, -, htask⟩ := attempt_acts h hw.task
  obtain ⟨cfg', pick', aw', hn', he⟩ := hw.call
  cases p with
  | compress p | convert p =>
    cases p <;> cases hputs
    cases hn
    cases hn'
    cases he
    exact ⟨k, data, _, b, _, htask, rfl, rfl⟩
  | default p => cases hputs

/-- A row whose insert has reserved an upload. -/
def Reserved (input : FileService.CreateUploadUrlInput) (file : FileRow) : Prop :=
  file.size = input.size ∧ ∃ random, IsUploadKey file.storagePath random

/-- The policy admits the key and the size of the row, and nothing else. -/
def Admits (policy : PostPolicy) (file : FileRow) : Prop :=
  policy.key = file.storagePath ∧ policy.minLength = file.size ∧ policy.maxLength = file.size

/-- A call that reserves an upload holds its row and the policy it signs for it. -/
structure Reserves (s : System) : Prop where
  created : ∀ (i : Nat) u input file, s.tasks[i]? = some (.createUploadUrl u input (.expiresAt file)) → Reserved input file
  presigned : ∀ (i : Nat) u input file policy, s.tasks[i]? = some (.createUploadUrl u input (.presign file policy)) →
    Reserved input file ∧ Admits policy file

/-- A step keeps the rows of the calls that reserve. -/
theorem reserves_step (hr : (platform cfg).Reach ok s) (h : Stepped cfg s a s') (hI : Reserves s) : Reserves s' where
  created i u input file hi := by
    rcases task_back h hi with ⟨t, ht, hm⟩ | ⟨-, hsp⟩
    · obtain ⟨p, rfl, hmv⟩ := reserve_moves hm
      cases hmv with
      | waits => exact hI.created i u input file ht
      | creates pick ch ha key _ hx =>
        obtain ⟨r, -, hkey⟩ := (uploadsKeyed hr).issued ht
        rcases createFile_cases ch s.world ⟨u, input.filename, input.mimeType, input.size, key, .pending⟩ with
          ⟨e, he⟩ | ⟨files, -, -, he⟩ <;> rw [he] at hx <;> cases hx
        exact ⟨rfl, r, hkey⟩
    · rcases reserve_spawns hsp with ⟨e, he⟩ | ⟨key, he⟩ <;> cases he
  presigned i u input file policy hi := by
    rcases task_back h hi with ⟨t, ht, hm⟩ | ⟨-, hsp⟩
    · obtain ⟨p, rfl, hmv⟩ := reserve_moves hm
      cases hmv with
      | waits => exact hI.presigned i u input file policy ht
      | dates =>
        have hres := hI.created i u input file ht
        exact ⟨hres, rfl, hres.1.symm, hres.1.symm⟩
    · rcases reserve_spawns hsp with ⟨e, he⟩ | ⟨key, he⟩ <;> cases he

/-- In every reachable state. -/
theorem reserves (h : (platform cfg).Reach ok s) : Reserves s := by
  refine h.invariant ?_ (fun s a s' hr hI _ hs => reserves_step hr (step_cases hs) hI)
  rintro s rfl
  exact ⟨fun i u input file hi => (nomatch hi), fun i u input file policy hi => (nomatch hi)⟩

/-- A signed policy is for an upload whose UUID is used up, and admits every row seen under its key. -/
def PoliciesAdmit (s : System) : Prop :=
  ∀ policy ∈ s.world.policies, (∃ random, IsUploadKey policy.key random ∧ Consumed s random) ∧
    ∀ file, Seen s file → file.storagePath = policy.key → Admits policy file

/-- A step keeps the signed policies to the rows of their uploads. -/
theorem policiesAdmit_step (hr : (platform cfg).Reach ok s) (h : Stepped cfg s a s') (hI : PoliciesAdmit s) :
    PoliciesAdmit s' := by
  intro policy hp
  have hold : (∃ random, IsUploadKey policy.key random ∧ Consumed s random) ∧
      ∀ file, Seen s file → file.storagePath = policy.key → Admits policy file := by
    rcases policies_step h hp with hp | ⟨i, t, ch, hw⟩
    · exact hI policy hp
    · obtain ⟨u, input, file, rfl⟩ := policy_signer hw
      have hseen : Seen s file := .presigned i u input policy hw.task
      obtain ⟨⟨-, r, hkey⟩, hadm⟩ := (reserves hr).presigned i u input file policy hw.task
      refine ⟨?_, fun x hx he => ?_⟩
      · rcases (uploadsRegistered hr).known hseen with ⟨r', hkey', hc⟩ | ⟨j, hout⟩
        · exact ⟨r', hadm.1 ▸ hkey', hc⟩
        · exact absurd hout hkey.not_output
      · rw [hadm.1] at he
        have hid : x.id = file.id := (uploadsRegistered hr).unique hx hseen ⟨r, he ▸ hkey, hkey⟩
        have hsame := seenAgree hr x file hx hseen hid
        unfold Admits
        rw [hsame.storagePath, hsame.size]
        exact hadm
  obtain ⟨⟨r, hkey, hc⟩, hadm⟩ := hold
  refine ⟨⟨r, hkey, consumed_step h hc⟩, fun x hx he => ?_⟩
  rcases seen_back h hx with ⟨x₀, hx₀, hsame⟩ | ⟨i, t, ch, data, hw, -, rfl, -⟩
  · have h₀ := hadm x₀ hx₀ (hsame.storagePath.trans he)
    unfold Admits
    rw [← hsame.storagePath, ← hsame.size]
    exact h₀
  · have he' : data.storagePath = policy.key := he
    rcases file_writer hr hw with ⟨u, input, key, rfl, rfl⟩ | ⟨k, data', p, rfl, hg⟩
    · obtain ⟨r', hkey', -, hno⟩ := upload_inserted hr h hw
      have hkey'' : IsUploadKey key r := by
        have he'' : key = policy.key := he'
        rw [he'']
        exact hkey
      exact absurd (hkey'.inj hkey'' ▸ hc) hno
    · have hout := outputKey_of_storing hg
      rw [he'] at hout
      exact absurd hout hkey.not_output

/-- In every reachable state. -/
theorem policiesAdmit (h : (platform cfg).Reach ok s) : PoliciesAdmit s := by
  refine h.invariant ?_ (fun s a s' hr hI _ hs => policiesAdmit_step hr (step_cases hs) hI)
  rintro s rfl policy hp
  cases hp

end FileProcessing
