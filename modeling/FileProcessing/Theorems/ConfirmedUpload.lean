import FileProcessing.Lemmas.Paths

/-!
# A confirmed upload and the sweep of abandoned uploads

`markReady` looks at the status of the row, `softDelete` does not: a sweep that has read a row as pending removes its object and
marks it deleted even when the upload was confirmed in between. A confirmed upload is kept in the runs where no sweep holds the
file when its confirmation checks the size, and none reads it between that check and the update.
-/

namespace FileProcessing

variable {cfg : Config} {ok : System → Action → Prop} {s s' : System} {a : Action}

/-- A confirmed upload is not swept as abandoned. A confirmation that is past its size check, or has returned, and that has
returned in the end: in between and afterwards no sweep of pending uploads removes the object of its file. And no such sweep
marks a ready row deleted. -/
def ConfirmedKept (cfg : Config) (ok : System → Action → Prop) : Prop :=
  (∀ s s₁ s₂ s' (i j pick : Nat) ch u f file updated g rest count, (platform cfg).Reach ok s →
    (s.tasks[i]? = some (.confirmUpload u f (.markReady file)) ∨ s.tasks[i]? = some (.confirmUpload u f (.returned file))) →
    (platform cfg).Steps ok s s₁ → s₁.tasks[j]? = some (.sweep .pendingUploads (.removeObject g rest count)) →
    ok s₁ (.exec j pick ch) → (platform cfg).step s₁ (.exec j pick ch) = some s₂ → (platform cfg).Steps ok s₂ s' →
    s'.tasks[i]? = some (.confirmUpload u f (.returned updated)) → g.storagePath ≠ file.storagePath) ∧
  ∀ s s' (j pick : Nat) ch g rest count, (platform cfg).Reach ok s →
    s.tasks[j]? = some (.sweep .pendingUploads (.removeRow g rest count)) → ok s (.exec j pick ch) →
    (platform cfg).step s (.exec j pick ch) = some s' → ∀ row ∈ s.world.db.files, row.id = g.id → row.status ≠ .ready

/-- The conditions on a step: when a confirmation checks the size of its object and finds it right, no sweep of pending uploads
holds the file; and such a sweep does not read a file whose confirmation is past that check. -/
structure ConfirmApart (s : System) (a : Action) : Prop where
  checked : ∀ (i pick : Nat) ch u f file object, a = .exec i pick ch → s.tasks[i]? = some (.confirmUpload u f (.statObject file)) →
    s.world.bucket file.storagePath = some object → (object.size : Int) = file.size → ¬ Held .pendingUploads s f
  read : ∀ (i j pick : Nat) ch before u f file, a = .exec i pick ch →
    s.tasks[i]? = some (.sweep .pendingUploads (.find before)) → s.tasks[j]? = some (.confirmUpload u f (.markReady file)) →
    ∀ g ∈ FileRepository.findExpiredPending s.world.db before, g.id ≠ f

/-! ## Pending rows are uploads -/

/-- A pending row, and a row a sweep of pending uploads holds, is an upload's. -/
structure PendingUploads (s : System) : Prop where
  rows : ∀ row ∈ s.world.db.files, row.status = .pending → ∃ r, IsUploadKey row.storagePath r
  items : ∀ (i : Nat) p, s.tasks[i]? = some (.sweep .pendingUploads p) → ∀ file ∈ p.items, ∃ r, IsUploadKey file.storagePath r

/-- A step keeps pending rows uploads. -/
theorem pendingUploads_step (hr : (platform cfg).Reach ok s) (h : Stepped cfg s a s') (hI : PendingUploads s) :
    PendingUploads s' where
  rows row' hrow' hp := by
    rcases files_step h hrow' with hrow | ⟨i, t, ch, e, hw, ⟨row, hrow, hwr⟩ | ⟨data, rfl, rfl, -⟩⟩
    · exact hI.rows row' hrow hp
    · cases hwr with
      | same => exact hI.rows row' hrow hp
      | deleted | ready => cases hp
    · rcases file_writer hr hw with ⟨u, input, key, rfl, rfl⟩ | ⟨k, data', p, rfl, hst⟩
      · obtain ⟨r, -, hkey⟩ := (uploadsKeyed hr).issued hw.task
        exact ⟨r, hkey⟩
      · have hready := (isOutput_of_stage hst).2.1
        have hp' : data.status = .pending := hp
        rw [hready] at hp'
        cases hp'
  items i p' hi file hf := by
    rcases task_back h hi with ⟨t, ht, hm⟩ | ⟨-, hsp⟩
    · obtain ⟨p, rfl, hold | ⟨before, pick, ch, -, -, hb⟩⟩ := sweep_items hm hf
      · exact hI.items i p ht file hold
      · exact hI.rows file (mem_batch hb) (pending_of_batch hb)
    · cases hsp
      cases hf

/-- In every reachable state. -/
theorem pendingUploads (h : (platform cfg).Reach ok s) : PendingUploads s := by
  refine h.invariant ?_ (fun s a s' hr hI _ hs => pendingUploads_step hr (step_cases hs) hI)
  rintro s rfl
  exact ⟨fun row hrow => absurd hrow (Table.not_mem_empty row), fun i p hi => (nomatch hi)⟩

/-! ## The invariant -/

/-- A file that is confirmed, or whose confirmation is past its check, is held by no sweep of pending uploads; and a confirmed
file is not pending. -/
structure Apart (s : System) : Prop where
  checked : ∀ (i : Nat) u f file, s.tasks[i]? = some (.confirmUpload u f (.markReady file)) → ¬ Held .pendingUploads s f
  ready : ∀ row ∈ s.world.db.files, row.status = .ready → ¬ Held .pendingUploads s row.id
  returned : ∀ (i : Nat) u f file, s.tasks[i]? = some (.confirmUpload u f (.returned file)) →
    ¬ Held .pendingUploads s f ∧ ∀ row ∈ s.world.db.files, row.id = f → row.status ≠ .pending

/-- A file that is not pending is not read by a sweep of pending uploads. -/
theorem not_held_of_not_pending (h : Stepped cfg s a s') {f : Uuid} (hn : ¬ Held .pendingUploads s f)
    (hp : ∀ row ∈ s.world.db.files, row.id = f → row.status ≠ .pending) : ¬ Held .pendingUploads s' f := by
  intro hh
  rcases held_back h hh with hh | ⟨i, pick, ch, before, -, -, file, hb, hid⟩
  · exact hn hh
  · exact hp file (mem_batch hb) hid (pending_of_batch hb)

/-- A row never becomes pending again. -/
theorem not_pending_step (h : Stepped cfg s a s') {f : Uuid} (hf : f ∈ s.world.issued)
    (hp : ∀ row ∈ s.world.db.files, row.id = f → row.status ≠ .pending) :
    ∀ row ∈ s'.world.db.files, row.id = f → row.status ≠ .pending := by
  intro row' hrow' hid
  rcases files_step h hrow' with hrow | ⟨i, t, ch, e, hw, ⟨row, hrow, hwr⟩ | ⟨data, rfl, rfl, hn, -⟩⟩
  · exact hp row' hrow hid
  · cases hwr with
    | same => exact hp row' hrow hid
    | deleted | ready => nofun
  · have hid' : ch.id = f := hid
    exact absurd (hid' ▸ hf) hn

/-- A call that is not the read of a sweep puts no file into a batch. -/
theorem not_held_of_other (h : Stepped cfg s a s') {i pick : Nat} {ch : Choice} {t : Task} (ha : a = .exec i pick ch)
    (ht : s.tasks[i]? = some t) (hne : ∀ before, t ≠ .sweep .pendingUploads (.find before)) {f : Uuid}
    (hn : ¬ Held .pendingUploads s f) : ¬ Held .pendingUploads s' f := by
  intro hh
  rcases held_back h hh with hh | ⟨j, pick', ch', before, ha', hj, -⟩
  · exact hn hh
  · rw [ha] at ha'
    cases ha'
    rw [ht] at hj
    exact hne before (Option.some.inj hj)

/-- Once `markReady` has returned a row, no row of the file is pending. -/
theorem not_pending_of_confirms (h : Stepped cfg s a s') {i pick : Nat} {ch : Choice} {u f : Uuid} {x updated : FileRow}
    (ha : a = .exec i pick ch) (ht : s.tasks[i]? = some (.confirmUpload u f (.markReady x)))
    (hx : (FileRepository.markReady s.world.db s.world.now u f).1 = some updated) :
    ∀ row ∈ s'.world.db.files, row.id = f → row.status ≠ .pending := by
  subst ha
  intro row hrow hid
  have hw : s'.world = ((Call.markReady u f).exec ch s.world).2 := world_of_exec h ht rfl
  obtain ⟨old, hold, hoid, hou, -, -⟩ := markReady_some hx
  have hu : row.userId = u := by
    rcases files_step h hrow with hrow₀ | ⟨_, _, _, _, hw', ⟨row₀, hrow₀, hwr⟩ | ⟨data, rfl, -⟩⟩
    · rw [s.world.db.files.eq_of_key_eq hrow₀ hold (hid.trans hoid.symm), hou]
    · rw [hwr.core.2.1, s.world.db.files.eq_of_key_eq hrow₀ hold (by rw [← hwr.core.1, hid, hoid]), hou]
    · obtain ⟨pick', ha'⟩ := hw'.action
      cases ha'
      have ht' := hw'.task
      rw [ht] at ht'
      cases ht'
      cases hw'.writes
  rw [hw, exec_world] at hrow
  exact markReady_rows hrow hid hu

/-- A step keeps the confirmations past their check apart from the sweeps. -/
theorem apart_checked_step (hok : ConfirmApart s a) (h : Stepped cfg s a s') (hI : Apart s) {i : Nat} {u f : Uuid} {file : FileRow}
    (hi : s'.tasks[i]? = some (.confirmUpload u f (.markReady file))) : ¬ Held .pendingUploads s' f := by
  rcases task_back h hi with ⟨t, ht, hm⟩ | ⟨-, hsp⟩
  · obtain ⟨p, rfl, hmv⟩ := confirm_moves hm
    cases hmv with
    | waits =>
      intro hh
      rcases held_back h hh with hh | ⟨j, pick, ch, before, ha, hj, g, hb, hid⟩
      · exact hI.checked i u f file ht hh
      · exact hok.read j i pick ch before u f file ha hj ht g hb hid
    | checks pick ch ha _ object ho hs =>
      exact not_held_of_other h ha ht (by nofun) (hok.checked i pick ch u f file object ha ht ho hs)
  · cases hsp

/-- A step keeps the ready rows apart from the sweeps: the row it inserts has an id no sweep can have read. -/
theorem apart_ready_step (hr : (platform cfg).Reach ok s) (h : Stepped cfg s a s') (hI : Apart s) {row' : FileRow}
    (hrow' : row' ∈ s'.world.db.files) (hst : row'.status = .ready) : ¬ Held .pendingUploads s' row'.id := by
  have kept (hrow : row' ∈ s.world.db.files) : ¬ Held .pendingUploads s' row'.id := by
    refine not_held_of_not_pending h (hI.ready row' hrow hst) (fun x hx hid => ?_)
    rw [s.world.db.files.eq_of_key_eq hx hrow hid, hst]
    nofun
  rcases files_step h hrow' with hrow | ⟨i, t, ch, e, hw, ⟨row, hrow, hwr⟩ | ⟨data, rfl, hrow, hn, -⟩⟩
  · exact kept hrow
  · cases hwr with
    | same => exact kept hrow
    | deleted => cases hst
    | ready =>
      obtain ⟨pick, ha⟩ := hw.action
      obtain ⟨file, rfl⟩ := ready_marker hw
      exact not_held_of_other h ha hw.task (by nofun) (hI.checked i _ _ file hw.task)
  · intro hh
    have hissued : row'.id ∈ s.world.issued := by
      rcases held_back h hh with ⟨file, ⟨j, p, hj, hf⟩, hid⟩ | ⟨j, pick', ch', before, ha', hj, file, hb, hid⟩
      · exact hid ▸ seenIssued hr file (.item j _ p hj hf)
      · exact hid ▸ (issued hr).files file (mem_batch hb)
    rw [hrow] at hissued
    exact hn hissued

/-- A step keeps the confirmations that have returned apart from the sweeps, and their files from being pending. -/
theorem apart_returned_step (hr : (platform cfg).Reach ok s) (h : Stepped cfg s a s') (hI : Apart s) {i : Nat} {u f : Uuid}
    {file : FileRow} (hi : s'.tasks[i]? = some (.confirmUpload u f (.returned file))) :
    ¬ Held .pendingUploads s' f ∧ ∀ row ∈ s'.world.db.files, row.id = f → row.status ≠ .pending := by
  rcases task_back h hi with ⟨t, ht, hm⟩ | ⟨-, hsp⟩
  · obtain ⟨p, rfl, hmv⟩ := confirm_moves hm
    cases hmv with
    | waits =>
      obtain ⟨hn, hp⟩ := hI.returned i u f file ht
      have hf : f ∈ s.world.issued := by
        rw [← confirmsOwn hr i u f _ file ht (Or.inr (Or.inr rfl))]
        exact seenIssued hr file (.confirmed i u f _ ht (Or.inr (Or.inr rfl)))
      exact ⟨not_held_of_not_pending h hn hp, not_pending_step h hf hp⟩
    | repeats pick ch ha _ hmem hid hready =>
      have hp : ∀ row ∈ s.world.db.files, row.id = f → row.status ≠ .pending := by
        intro row hrow hid'
        rw [s.world.db.files.eq_of_key_eq hrow hmem (hid'.trans hid.symm), hready]
        nofun
      have hn := hI.ready file hmem hready
      rw [hid] at hn
      exact ⟨not_held_of_not_pending h hn hp, not_pending_step h (hid ▸ (issued hr).files file hmem) hp⟩
    | confirms pick ch ha x _ hx =>
      exact ⟨not_held_of_other h ha ht (by nofun) (hI.checked i u f x ht), not_pending_of_confirms h ha ht hx⟩
  · cases hsp

/-- A step keeps confirmations and sweeps apart. -/
theorem apart_step (hr : (platform cfg).Reach ok s) (hok : ConfirmApart s a) (h : Stepped cfg s a s') (hI : Apart s) :
    Apart s' where
  checked _ _ _ _ hi := apart_checked_step hok h hI hi
  ready _ hrow hst := apart_ready_step hr h hI hrow hst
  returned _ _ _ _ hi := apart_returned_step hr h hI hi

/-- The invariant, in a run where confirmations and sweeps are apart. -/
theorem apart (h : (platform cfg).Reach ConfirmApart s) : Apart s := by
  refine h.invariant ?_ (fun s a s' hr hI hok hs => apart_step hr hok (step_cases hs) hI)
  rintro s rfl
  exact ⟨fun i u f file hi => (nomatch hi), fun row hrow => absurd hrow (Table.not_mem_empty row),
    fun i u f file hi => (nomatch hi)⟩

/-! ## The result -/

/-- A confirmation that is past its check, or has returned, holds a row with the path; or it has thrown. -/
def PastCheck (s : System) (i : Nat) (u f : Uuid) (path : String) : Prop :=
  ∃ p, s.tasks[i]? = some (.confirmUpload u f p) ∧
    ((∃ x, (p = .markReady x ∨ p = .returned x) ∧ x.storagePath = path) ∨ ∃ e, p = .threw e)

/-- It stays so. -/
theorem pastCheck_step (hr : (platform cfg).Reach ok s) (h : Stepped cfg s a s') {i : Nat} {u f : Uuid} {path : String}
    (hI : PastCheck s i u f path) : PastCheck s' i u f path := by
  obtain ⟨p, hi, hp⟩ := hI
  obtain ⟨p', hi', hmv⟩ := confirm_forward h hi
  refine ⟨p', hi', ?_⟩
  cases hmv with
  | waits => exact hp
  | throws p e => exact Or.inr ⟨e, rfl⟩
  | reads | repeats | checks => rcases hp with ⟨x, hx | hx, -⟩ | ⟨e, hx⟩ <;> cases hx
  | confirms pick ch ha x updated hx =>
    obtain ⟨old, hold, hid, -, -, rfl⟩ := markReady_some hx
    rcases hp with ⟨y, hy | hy, hpath⟩ | ⟨e, hy⟩ <;> cases hy
    have hxid := confirmsOwn hr i u f _ x hi (Or.inr (Or.inl rfl))
    have hsame := seenAgree hr old x (.row hold) (.confirmed i u f _ hi (Or.inr (Or.inl rfl))) (hid.trans hxid.symm)
    exact Or.inl ⟨_, Or.inr rfl, hsame.storagePath.trans hpath⟩

/-- A confirmed upload is kept in every run where confirmations and sweeps are apart. -/
theorem confirmed_kept (cfg : Config) : ConfirmedKept cfg ConfirmApart := by
  refine ⟨?_, ?_⟩
  · intro s s₁ s₂ s' i j pick ch u f file updated g rest count hr hi hs hj hok hst hs' hdone hpath
    have hr₁ := hr.steps hs
    have hpast : PastCheck s₁ i u f file.storagePath := by
      refine hs.preserves (fun s₁ => PastCheck s₁ i u f file.storagePath) hr ?_ ?_
      · rcases hi with hi | hi
        · exact ⟨_, hi, Or.inl ⟨file, Or.inl rfl, rfl⟩⟩
        · exact ⟨_, hi, Or.inl ⟨file, Or.inr rfl, rfl⟩⟩
      · intro s a s' hr hI _ hst
        exact pastCheck_step hr (step_cases hst) hI
    obtain ⟨p, hi₁, ⟨x, hp, hx⟩ | ⟨e, rfl⟩⟩ := hpast
    · have hp' : p = .statObject x ∨ p = .markReady x ∨ p = .returned x := Or.inr hp
      obtain ⟨r, hkey⟩ := (pendingUploads hr₁).items j _ hj g List.mem_cons_self
      have hid : g.id = x.id := (uploadsRegistered hr₁).unique (.item j _ _ hj List.mem_cons_self)
        (.confirmed i u f p hi₁ hp') ⟨r, hkey, by rw [hx, ← hpath]; exact hkey⟩
      have hheld : Held .pendingUploads s₁ f :=
        ⟨g, ⟨j, _, hj, List.mem_cons_self⟩, hid.trans (confirmsOwn hr₁ i u f p x hi₁ hp')⟩
      rcases hp with rfl | rfl
      · exact (apart hr₁).checked i u f x hi₁ hheld
      · exact ((apart hr₁).returned i u f x hi₁).1 hheld
    · have hthrew := (Lts.Steps.single (.exec j pick ch) hok hst |>.trans hs').induct
        (fun s' => s'.tasks[i]? = some (.confirmUpload u f (.threw e))) hi₁ (by
          intro s a s' hi _ hst
          obtain ⟨p', hi', hmv⟩ := confirm_forward (step_cases hst) hi
          cases hmv with
          | waits => exact hi'
          | throws _ _ hp => exact absurd rfl (hp e))
      rw [hdone] at hthrew
      cases hthrew
  · intro s s' j pick ch g rest count hr hj _ _ row hrow hid hready
    exact (apart hr).ready row hrow hready ⟨g, ⟨j, _, hj, List.mem_cons_self⟩, hid.symm⟩

/-- An upload that was never confirmed expires, a sweep reads it, and it is confirmed before the sweep gets to it. -/
def sweptConfirmation : List Action :=
  Trace.upload.take 6 ++ [.tick 3600001, .startSweep .pendingUploads, Trace.call 1 0, Trace.call 1 0,
    .request (.confirmUpload (Trace.uuid 1) (Trace.uuid 10)) (Trace.uuid 3), Trace.call 2 0, Trace.call 2 0, Trace.call 2 0,
    Trace.call 1 0]

/-- The sweep is at the update of a row that is ready. -/
def sweepsReady (s : System) : Bool :=
  match s.tasks[1]? with
  | some (Task.sweep .pendingUploads (.removeRow g _ _)) =>
    s.world.db.files.rows.any (fun row => row.id = g.id && row.status = .ready)
  | _ => false

/-- A confirmed upload is not kept in every run: the sweep marks its row deleted. -/
theorem confirmed_swept : ¬ ConfirmedKept Config.default Lts.Free := by
  rintro ⟨-, h⟩
  have hrun : ((platform Config.default).run System.empty sweptConfirmation).any (fun s =>
      sweepsReady s && ((platform Config.default).step s (Trace.call 1 0)).isSome) = true := by
    decide +kernel
  obtain ⟨s, hs, hp⟩ := Trace.reach hrun
  rw [Bool.and_eq_true] at hp
  obtain ⟨hready, hstep⟩ := hp
  obtain ⟨s', hs'⟩ := Option.isSome_iff_exists.1 hstep
  unfold sweepsReady at hready
  split at hready
  · rename_i g rest count hj
    obtain ⟨row, hrow, hr⟩ := List.any_eq_true.1 hready
    rw [Bool.and_eq_true, decide_eq_true_eq, decide_eq_true_eq] at hr
    exact h s s' 1 0 _ g rest count hs hj trivial hs' row hrow hr.1 hr.2
  · cases hready

end FileProcessing
