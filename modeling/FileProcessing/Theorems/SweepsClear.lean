import FileProcessing.Theorems.GuestReclaim
import FileProcessing.Theorems.JobsFinish
import FileProcessing.Theorems.RowHistory

/-!
# What the sweeps clear away

What the sweeps are there for, over a whole run: where sweeps of both kinds start again and again, and again and again one of them runs
through, no reservation stays pending for ever, and no file of a guest stays that has no open job from some time on. One sweep may miss
a row, the loop stops at the first statement that fails, and any number of sweeps may do so.
-/

open Filter

namespace FileProcessing

variable {cfg : Config} {s s' : System} {a : Action} {kind : SweepKind} {i : Nat} {id owner : Uuid} {b : Time}

/-- No statement of the sweep at the place fails in the run. The removal of an object may: it is caught. -/
def RunsThrough (state : Nat → System) (act : Nat → Action) (i : Nat) : Prop :=
  ∀ m pick e kind p, act m = .reject i pick e → (state m).tasks[i]? = some (.sweep kind p) →
    ∃ file rest count, p = .removeObject file rest count

/-- The run is fair to the sweeps, time goes on, and again and again a sweep of each kind is started that runs through. -/
structure SweepsGoOn (cfg : Config) (state : Nat → System) (act : Nat → Action) : Prop where
  calls : ∀ i, (∃ n kind p, (state n).tasks[i]? = some (.sweep kind p)) →
    Lts.WeaklyFair (fun n => (state n).Awaits cfg i) (fun n => (act n).caller = some i)
  starts : ∀ kind, ∃ᶠ n in atTop, act n = .startSweep kind ∧ RunsThrough state act (state n).tasks.length
  time : ∀ t : Time, ∃ n, t ≤ (state n).world.now

/-- Nothing stays that the sweeps are there to clear away: no reservation is pending for ever, and of a guest's file that has no open
job from some time on no row is left, unless it is marked deleted. -/
structure SweepsClear (state : Nat → System) : Prop where
  uploads : ∀ n, ∀ file ∈ (state n).world.db.files,
    ∀ᶠ m in atTop, ∀ file' ∈ (state m).world.db.files, file'.id = file.id → file'.status ≠ .pending
  guests : ∀ n, ∀ file ∈ (state n).world.db.files, Guest (state n) file.userId →
    (∀ᶠ m in atTop, FileRepository.hasOpenJob (state m).world.db file.id = false) →
    ∀ᶠ m in atTop, ∀ file' ∈ (state m).world.db.files, file'.id = file.id → file'.status = .deleted

/-! ## The batch -/

/-- A row of the batch is in every later one. -/
theorem batch_mono {db : Db} {before before' : Time} (hle : before ≤ before') {file : FileRow} (h : file ∈ kind.batch db before) :
    file ∈ kind.batch db before' := by
  cases kind with
  | pendingUploads =>
    simp only [SweepKind.batch, FileRepository.findExpiredPending, Table.mem_select, Bool.and_eq_true, decide_eq_true_eq] at h ⊢
    exact ⟨h.1, h.2.1, Int.lt_of_lt_of_le h.2.2 hle⟩
  | guestResources =>
    simp only [SweepKind.batch, FileRepository.findExpiredGuestFiles, Table.mem_select, Bool.and_eq_true, decide_eq_true_eq] at h ⊢
    exact ⟨h.1, ⟨h.2.1.1, Int.lt_of_lt_of_le h.2.1.2 hle⟩, h.2.2⟩

/-- A row that has just been removed is in no batch. -/
theorem not_batch_of_removed {w : World} {item file : FileRow} (h : file ∈ kind.batch (kind.withoutRow w item).db b) :
    file.itemOf item = false := by
  cases kind with
  | pendingUploads =>
    have hpending := pending_of_batch h
    obtain ⟨old, -, hcase⟩ := List.mem_map.1 (mem_batch h)
    split at hcase
    · subst hcase
      cases hpending
    · rename_i hno
      subst hcase
      exact Bool.eq_false_iff.2 hno
  | guestResources => exact (Table.mem_delete.1 (mem_batch h)).2

/-- A row of the id is in the batch. -/
def Due (kind : SweepKind) (s : System) (id owner : Uuid) (b : Time) : Prop :=
  ∃ file ∈ kind.batch s.world.db b, file.id = id ∧ file.userId = owner

/-! ## A sweep that runs through -/

/-- The sweep will read a batch with the row, or has it among its items. -/
def Sweep.Tracks (cfg : Config) (kind : SweepKind) (s : System) (id owner : Uuid) (b : Time) : Sweep → Prop
  | .cutoff => b ≤ s.world.now - kind.ttlSeconds cfg * 1000
  | .find before => b ≤ before
  | p => ∃ item ∈ p.items, item.id = id ∧ item.userId = owner

/-- The loop has the row among its items. -/
theorem tracks_loop {count : Nat} {items : List FileRow} (h : ∃ item ∈ items, item.id = id ∧ item.userId = owner) :
    (Sweep.loop count items).Tracks cfg kind s id owner b := by
  cases items with
  | nil =>
    obtain ⟨item, hitem, -⟩ := h
    cases hitem
  | cons file rest => exact h

/-- The removal of a row succeeds, unless it fails in transit. -/
theorem removeRow_returns {file : FileRow} {rest : List FileRow} {count pick : Nat} {aw : Await Sweep} {r : Except Err aw.α}
    (hn : sweep cfg kind (.removeRow file rest count) = some aw) (hr : Settles s i pick a aw.call r)
    (hkept : ∀ pick e, a ≠ .reject i pick e) : ∃ ch, a = .exec i pick ch ∧ aw.resume r = Sweep.loop count rest := by
  cases kind with
  | pendingUploads | guestResources =>
    cases hn
    cases r with
    | error e =>
      rcases hr.of_error with ha | ⟨ch, -, hx⟩
      · exact absurd ha (hkept pick e)
      · cases hx
    | ok v =>
      obtain ⟨ch, ha, -⟩ := hr.of_ok
      exact ⟨ch, ha, rfl⟩

/-- The world after the removal of a row. -/
theorem removed_world {file : FileRow} {rest : List FileRow} {count pick : Nat} {ch : Choice} (h : Stepped cfg s (.exec i pick ch) s')
    (ht : s.tasks[i]? = some (.sweep kind (.removeRow file rest count))) : s'.world = kind.withoutRow s.world file := by
  rw [world_of_exec h ht rfl]
  cases kind <;> rfl

/-- A sweep that runs through keeps track of a row that stays due. -/
theorem tracks_step (h : Stepped cfg s a s') {p : Sweep} (ht : s.tasks[i]? = some (.sweep kind p))
    (hthrough : ∀ pick e, a = .reject i pick e → ∃ file rest count, p = .removeObject file rest count)
    (hdue : Due kind s id owner b) (hdue' : Due kind s' id owner b) (hp : p.Tracks cfg kind s id owner b) :
    ∃ p', s'.tasks[i]? = some (.sweep kind p') ∧ p'.Tracks cfg kind s' id owner b := by
  obtain ⟨t', ht', hm⟩ := task_forward h ht
  cases hm with
  | waits =>
    refine ⟨p, ht', ?_⟩
    cases p with
    | cutoff => exact Int.le_trans hp (Int.sub_le_sub_right (now_step h) _)
    | find | removeObject | removeRow | returned | threw => exact hp
  | @sweep _ _ p' aw r pick hn hr he =>
    subst he
    refine ⟨_, ht', ?_⟩
    cases p with
    | cutoff =>
      cases hn
      cases r with
      | error e =>
        rcases hr.of_error with ha | ⟨ch, -, hx⟩
        · obtain ⟨_, _, _, hno⟩ := hthrough pick e ha
          cases hno
        · cases hx
      | ok now =>
        obtain ⟨ch, -, hx⟩ := hr.of_ok
        cases hx
        exact hp
    | find before =>
      cases hn
      cases r with
      | error e =>
        rcases hr.of_error with ha | ⟨ch, -, hx⟩
        · obtain ⟨_, _, _, hno⟩ := hthrough pick e ha
          cases hno
        · cases kind <;> cases hx
      | ok expired =>
        obtain ⟨ch, -, hx⟩ := hr.of_ok
        have hbatch : expired = inOrder FileRow.id ch.order (kind.batch s.world.db before) := by cases kind <;> cases hx <;> rfl
        subst hbatch
        obtain ⟨file, hfile, hid⟩ := hdue
        exact tracks_loop ⟨file, mem_inOrder.2 (batch_mono hp hfile), hid⟩
    | removeObject file rest count =>
      cases hn
      exact hp
    | removeRow file rest count =>
      obtain ⟨ch, rfl, hloop⟩ := removeRow_returns hn hr (fun pick e ha => by
        obtain ⟨_, _, _, hno⟩ := hthrough pick e ha
        cases hno)
      rw [hloop]
      obtain ⟨item, hitem, hid, howner⟩ := hp
      rcases List.mem_cons.1 hitem with rfl | hrest
      · -- the row is removed in this step, and would not be due after it
        obtain ⟨x, hx, hxid, hxowner⟩ := hdue'
        rw [removed_world h ht] at hx
        have hof : x.itemOf item = true := by
          simp [FileRow.itemOf, FileRepository.owned, hxid, hxowner, hid, howner]
        rw [not_batch_of_removed hx] at hof
        cases hof
      · exact tracks_loop ⟨item, hrest, hid, howner⟩
    | returned | threw => cases hn

section Run

variable {state : Nat → System} {act : Nat → Action} {n : Nat}

/-- No row is due from some time on for ever. -/
theorem not_always_due (h : (platform cfg).Run state act) (hgo : SweepsGoOn cfg state act) (kind : SweepKind) (id owner : Uuid)
    (b : Time) : ¬ ∀ᶠ m in atTop, Due kind (state m) id owner b := by
  intro hdue
  obtain ⟨N, hN⟩ := eventually_atTop.1 hdue
  obtain ⟨T, hT⟩ := hgo.time (b + kind.ttlSeconds cfg * 1000)
  obtain ⟨n, ⟨hstart, hthrough⟩, hn⟩ := ((hgo.starts kind).and_eventually (eventually_ge_atTop (N + T))).exists
  have hnow : b ≤ (state n).world.now - kind.ttlSeconds cfg * 1000 := by
    have hle : (state T).world.now ≤ (state n).world.now :=
      h.stable (P := fun s => (state T).world.now ≤ s.world.now) (fun s a s' _ hle hs => Int.le_trans hle (now_step (step_cases hs)))
        (by omega) (Int.le_refl _)
    exact Int.le_sub_right_of_add_le (Int.le_trans hT hle)
  generalize hi : (state n).tasks.length = i at hthrough
  have hfirst : (state (n + 1)).tasks[i]? = some (.sweep kind .cutoff) := by
    have hs := h.step n
    rw [hstart] at hs
    have heq : (state n).spawn (.sweep kind .cutoff) = state (n + 1) := Option.some.inj hs
    rw [← heq, ← hi]
    exact List.getElem?_concat_length
  have htracks : ∀ m, n + 1 ≤ m → ∃ p, (state m).tasks[i]? = some (.sweep kind p) ∧ p.Tracks cfg kind (state m) id owner b := by
    intro m hm
    induction m, hm using Nat.le_induction with
    | base => exact ⟨.cutoff, hfirst, Int.le_trans hnow (Int.sub_le_sub_right (now_step (run_stepped h n)) _)⟩
    | succ m hm ih =>
      obtain ⟨p, ht, hp⟩ := ih
      exact tracks_step (run_stepped h m) ht (fun pick e ha => hthrough m pick e kind p ha ht) (hN m (by omega)) (hN (m + 1) (by omega)) hp
  obtain ⟨m, ⟨t, ht, hover⟩, hm⟩ :=
    ((tasks_end h (hgo.calls i ⟨n + 1, kind, _, hfirst⟩) hfirst).and (eventually_ge_atTop (n + 1))).exists
  obtain ⟨p, ht', hp⟩ := htracks m hm
  cases ht.symm.trans ht'
  cases p with
  | cutoff | find | removeObject | removeRow => simp [Task.over, Sweep.left] at hover
  | returned | threw =>
    obtain ⟨item, hitem, -⟩ := hp
    cases hitem

/-! ## The rows -/

/-- The id of a row that is there has been issued, and stays so. -/
theorem issued_at (h : (platform cfg).Run state act) {file : FileRow} (hfile : file ∈ (state n).world.db.files) {m : Nat} (hnm : n ≤ m) :
    file.id ∈ (state m).world.issued :=
  h.stable (P := fun s => file.id ∈ s.world.issued) (fun _ _ _ _ hi hs => issued_step (step_cases hs) hi) hnm
    ((issued (h.reach n)).files file hfile)

/-- A row of the id at a later time is a later version of the row. -/
theorem later_at (h : (platform cfg).Run state act) {file file' : FileRow} (hfile : file ∈ (state n).world.db.files) {m : Nat}
    (hnm : n ≤ m) (hfile' : file' ∈ (state m).world.db.files) (hid : file'.id = file.id) : file.Later file' :=
  (row_history cfg).files _ _ (h.reach n) (h.steps hnm) file hfile file' hfile' hid

/-- What holds of every row of an id that is there from some time on, where it is kept as the row is written. -/
theorem rows_at (h : (platform cfg).Run state act) {Q : FileStatus → Prop} (hQ : ∀ x y : FileStatus, x.To y → Q x → Q y) {file : FileRow}
    (hfile : file ∈ (state n).world.db.files) {m : Nat} (hnm : n ≤ m)
    (hm : ∀ file' ∈ (state m).world.db.files, file'.id = file.id → Q file'.status) :
    ∀ᶠ k in atTop, ∀ file' ∈ (state k).world.db.files, file'.id = file.id → Q file'.status := by
  refine Lts.eventually_of_kept (P := fun k => ∀ file' ∈ (state k).world.db.files, file'.id = file.id → Q file'.status) hm ?_
  intro k hk hI file' hfile' hid
  have hissued : file'.id ∈ (state k).world.issued := hid ▸ issued_at h hfile (Nat.le_trans hnm hk)
  obtain ⟨old, hold, hid', hlater⟩ := file_later (run_stepped h k) hfile' hissued
  exact hQ _ _ hlater.status (hI old hold (hid'.trans hid))

theorem FileStatus.To.not_pending {x y : FileStatus} (h : x.To y) (hx : x ≠ .pending) : y ≠ .pending := by
  rcases h with rfl | rfl | ⟨hp, -⟩
  · exact hx
  · decide
  · exact absurd hp hx

theorem FileStatus.To.deleted {x y : FileStatus} (h : x.To y) (hx : x = .deleted) : y = .deleted := by
  rcases h with rfl | rfl | ⟨hp, -⟩
  · exact hx
  · rfl
  · rw [hp] at hx
    cases hx

/-- No reservation is pending for ever. -/
theorem uploads_clear (h : (platform cfg).Run state act) (hgo : SweepsGoOn cfg state act) {file : FileRow}
    (hfile : file ∈ (state n).world.db.files) :
    ∀ᶠ m in atTop, ∀ file' ∈ (state m).world.db.files, file'.id = file.id → file'.status ≠ .pending := by
  obtain ⟨m, hnm, hm⟩ := Lts.exists_not_of_not_eventually
    (not_always_due h hgo .pendingUploads file.id file.userId (file.createdAt + 1)) n
  refine rows_at h (Q := fun status => status ≠ .pending) (fun _ _ hto hx => hto.not_pending hx) hfile hnm ?_
  intro file' hfile' hid hpending
  have hlater := later_at h hfile hnm hfile' hid
  refine hm ⟨file', ?_, hid, hlater.userId⟩
  have hold : file'.createdAt < file.createdAt + 1 := by
    rw [hlater.createdAt]
    exact Int.lt_succ _
  exact Table.mem_select.2 ⟨hfile', Bool.and_eq_true_iff.2 ⟨decide_eq_true hpending, decide_eq_true hold⟩⟩

/-- A row that is ready was there as it is, or was pending. -/
theorem ready_back (h : Stepped cfg s a s') {file' : FileRow} (hfile : file' ∈ s'.world.db.files) (hready : file'.status = .ready)
    (hid : file'.id ∈ s.world.issued) : file' ∈ s.world.db.files ∨ ∃ file ∈ s.world.db.files, file.id = file'.id ∧ file.status = .pending := by
  rcases files_step h hfile with hold | ⟨i, t, ch, e, hw, ⟨r, hrow, hf⟩ | ⟨data, rfl, rfl, hn, -⟩⟩
  · exact Or.inl hold
  · cases hf with
    | same => exact Or.inl hrow
    | deleted => cases hready
    | ready _ hp => exact Or.inr ⟨r, hrow, rfl, hp⟩
  · exact absurd hid hn

/-- A guest stays one. -/
theorem guest_step (hs : (platform cfg).step s a = some s') {g : Uuid} (hg : Guest s g) (hi : g ∈ s.world.issued) : Guest s' g := by
  cases step_cases hs with
  | @exec i pick ch t aw ht hn =>
    have hsame := (frame_apply ch s.world aw.call.effect).1
    intro user hu
    exact hg user (hsame ▸ hu)
  | register user users hnew =>
    have hins : s.world.db.users.insert user = some users := by
      simp only [platform, System.step] at hs
      split at hs
      · cases hs
      · obtain ⟨users', hu, he⟩ := Option.map_eq_some_iff.1 hs
        cases he
        exact hu
    intro x hx
    rcases (Table.insert_eq_some hins x).1 hx with hold | rfl
    · exact hg x hold
    · rintro rfl
      exact hnew hi
  | request | startSweep | reject | upload | deliver | stall | settle | guestSession | tick => exact hg

/-- A file of a guest that has no open job from some time on is gone some time, or marked deleted. -/
theorem guests_clear (h : (platform cfg).Run state act) (hgo : SweepsGoOn cfg state act) {file : FileRow}
    (hfile : file ∈ (state n).world.db.files) (hg : Guest (state n) file.userId)
    (hclosed : ∀ᶠ m in atTop, FileRepository.hasOpenJob (state m).world.db file.id = false) :
    ∀ᶠ m in atTop, ∀ file' ∈ (state m).world.db.files, file'.id = file.id → file'.status = .deleted := by
  have hguest : ∀ m, n ≤ m → Guest (state m) file.userId := by
    intro m hm
    refine (h.stable (P := fun s => Guest s file.userId ∧ file.userId ∈ s.world.issued) ?_ hm
      ⟨hg, (ownersIssued (h.reach n)).files file hfile⟩).1
    rintro s a s' - ⟨hg, hi⟩ hs
    exact ⟨guest_step hs hg hi, issued_step (step_cases hs) hi⟩
  by_contra hnever
  -- from every time on there is a row of the id that is not deleted, and so is ready
  have hleft : ∀ m, n ≤ m → ∃ file' ∈ (state m).world.db.files, file'.id = file.id ∧ file'.status ≠ .deleted := by
    intro m hm
    by_contra hnone
    refine hnever (rows_at h (Q := fun status => status = .deleted) (fun _ _ hto hx => hto.deleted hx) hfile hm ?_)
    intro file' hfile' hid
    by_contra hne
    exact hnone ⟨file', hfile', hid, hne⟩
  obtain ⟨N, hN⟩ := eventually_atTop.1 ((uploads_clear h hgo hfile).and (hclosed.and (eventually_ge_atTop n)))
  have hready : ∀ m, N ≤ m → ∃ file' ∈ (state m).world.db.files, file'.id = file.id ∧ file'.status = .ready := by
    intro m hm
    obtain ⟨hpending, -, hnm⟩ := hN m hm
    obtain ⟨file', hfile', hid, hne⟩ := hleft m hnm
    refine ⟨file', hfile', hid, ?_⟩
    cases hst : file'.status with
    | pending => exact absurd hst (hpending file' hfile' hid)
    | ready => rfl
    | deleted => exact absurd hst hne
  obtain ⟨row, hrow, hid, hrowReady⟩ := hready N (Nat.le_refl N)
  -- the row is the same from then on
  have hstays : ∀ m, N ≤ m → row ∈ (state m).world.db.files := by
    intro m hm
    induction m, hm using Nat.le_induction with
    | base => exact hrow
    | succ m hm ih =>
      obtain ⟨hpending, -, hnm⟩ := hN m hm
      obtain ⟨file', hfile', hid', hready'⟩ := hready (m + 1) (by omega)
      rcases ready_back (run_stepped h m) hfile' hready' (hid' ▸ issued_at h hfile hnm) with hold | ⟨old, hold, hidOld, hp⟩
      · rwa [(state m).world.db.files.eq_of_key_eq ih hold (hid.trans hid'.symm)]
      · exact absurd hp (hpending old hold (hidOld.trans hid'))
  refine not_always_due h hgo .guestResources row.id row.userId (row.updatedAt + 1)
    (eventually_atTop.2 ⟨N, fun m hm => ?_⟩)
  obtain ⟨-, hopen, hnm⟩ := hN m hm
  have howner : row.userId = file.userId := (later_at h hfile (hN N (Nat.le_refl N)).2.2 hrow hid).userId
  refine ⟨row, ?_, rfl, rfl⟩
  have hnoUser : ∀ user ∈ (state m).world.db.users, user.id ≠ row.userId := howner ▸ hguest m hnm
  rw [← hid] at hopen
  simpa [SweepKind.batch, FileRepository.findExpiredGuestFiles, hstays m hm, hrowReady, hopen, Int.lt_succ, Table.mem_def] using hnoUser

/-- The sweeps clear away what they are there for. -/
theorem sweeps_clear (h : (platform cfg).Run state act) (hgo : SweepsGoOn cfg state act) : SweepsClear state where
  uploads _ _ hfile := uploads_clear h hgo hfile
  guests _ _ hfile hg hclosed := guests_clear h hgo hfile hg hclosed

end Run

/-! ## A run in which the sweeps go on -/

/-- A sweep that has found nothing. -/
def sweptNothing (kind : SweepKind) : Task := .sweep kind (.returned 0)

/-- The system after so many rounds in which both sweeps find nothing and a millisecond passes. -/
def System.rounds (s : System) : Nat → System
  | 0 => s
  | q + 1 =>
    { world := { (s.rounds q).world with now := (s.rounds q).world.now + (1 : Nat) }
      tasks := (s.rounds q).tasks ++ [sweptNothing .pendingUploads] ++ [sweptNothing .guestResources] }

/-- The states of the rounds, seven a round. -/
def System.sweeping (cfg : Config) (s : System) (n : Nat) : System :=
  let u := s.rounds (n / 7)
  let v := u.spawn (sweptNothing .pendingUploads)
  match n % 7 with
  | 0 => u
  | 1 => u.spawn (.sweep .pendingUploads .cutoff)
  | 2 => u.spawn (.sweep .pendingUploads (.find (u.world.now - SweepKind.pendingUploads.ttlSeconds cfg * 1000)))
  | 3 => v
  | 4 => v.spawn (.sweep .guestResources .cutoff)
  | 5 => v.spawn (.sweep .guestResources (.find (u.world.now - SweepKind.guestResources.ttlSeconds cfg * 1000)))
  | _ => v.spawn (sweptNothing .guestResources)

/-- The steps of the rounds. -/
def System.sweeps (s : System) (n : Nat) : Action :=
  let u := s.rounds (n / 7)
  match n % 7 with
  | 0 => .startSweep .pendingUploads
  | 1 | 2 => .exec u.tasks.length 0 ⟨⟨0⟩, 0, []⟩
  | 3 => .startSweep .guestResources
  | 4 | 5 => .exec (u.tasks.length + 1) 0 ⟨⟨0⟩, 0, []⟩
  | _ => .tick 1

/-- Nothing is left to sweep, and no task has a call to make. -/
structure Swept (s : System) : Prop where
  files : ∀ file ∈ s.world.db.files, file.status = .deleted
  ended : ∀ t ∈ s.tasks, t.over = true

theorem Swept.rounds (h : Swept s) (q : Nat) : Swept (s.rounds q) := by
  induction q with
  | zero => exact h
  | succ q ih =>
    refine ⟨ih.files, fun t ht => ?_⟩
    simp only [System.rounds, List.mem_append, List.mem_singleton] at ht
    rcases ht with (hold | rfl) | rfl
    · exact ih.ended t hold
    · rfl
    · rfl

/-- Where nothing is left to sweep the batch is empty. -/
theorem Swept.batch (h : Swept s) (kind : SweepKind) (before : Time) : kind.batch s.world.db before = [] := by
  refine List.eq_nil_iff_forall_not_mem.2 (fun file hfile => ?_)
  have hdeleted := h.files file (mem_batch hfile)
  cases kind with
  | pendingUploads =>
    rw [pending_of_batch hfile] at hdeleted
    cases hdeleted
  | guestResources =>
    simp [SweepKind.batch, FileRepository.findExpiredGuestFiles, hdeleted] at hfile

/-- The sweep that was started last makes its call. -/
theorem last_execs (cfg : Config) (u : System) {p : Sweep} {aw : Await Sweep} (hn : sweep cfg kind p = some aw) (ch : Choice) :
    (platform cfg).step (u.spawn (.sweep kind p)) (.exec u.tasks.length 0 ch) =
      some ⟨(aw.call.exec ch u.world).2, u.tasks ++ [.sweep kind (aw.resume (aw.call.exec ch u.world).1)]⟩ := by
  simp [platform, System.step, System.spawn, Task.next, hn, System.resume, Pool.replace, Await.map]

/-- The sweep that was started last reads an empty batch. -/
theorem last_finds (cfg : Config) (u : System) {before : Time} (h : kind.batch u.world.db before = []) (ch : Choice) :
    (platform cfg).step (u.spawn (.sweep kind (.find before))) (.exec u.tasks.length 0 ch) = some (u.spawn (sweptNothing kind)) := by
  rw [last_execs cfg u rfl ch]
  cases kind with
  | pendingUploads =>
    have hfound : FileRepository.findExpiredPending u.world.db before = [] := h
    have hempty : inOrder FileRow.id ch.order [] = [] := rfl
    simp [SweepKind.findExpired, Call.exec, hfound, hempty, Sweep.loop, System.spawn, sweptNothing]
  | guestResources =>
    have hfound : FileRepository.findExpiredGuestFiles u.world.db before = [] := h
    have hempty : inOrder FileRow.id ch.order [] = [] := rfl
    simp [SweepKind.findExpired, Call.exec, hfound, hempty, Sweep.loop, System.spawn, sweptNothing]

/-- The steps lead from each state of the rounds to the next. -/
theorem Swept.step (h : Swept s) (cfg : Config) (n : Nat) :
    (platform cfg).step (s.sweeping cfg n) (s.sweeps n) = some (s.sweeping cfg (n + 1)) := by
  obtain ⟨q, r, hr, rfl⟩ : ∃ q r, r < 7 ∧ n = 7 * q + r := ⟨n / 7, n % 7, Nat.mod_lt n (by omega), (Nat.div_add_mod n 7).symm⟩
  have hq := (h.rounds q).batch
  have hdiv : (7 * q + r) / 7 = q := by omega
  have hmod : (7 * q + r) % 7 = r := by omega
  have hlength : (s.rounds q).tasks.length + 1 = ((s.rounds q).spawn (sweptNothing .pendingUploads)).tasks.length := by
    simp [System.spawn]
  obtain rfl | hne : r = 6 ∨ r < 6 := by omega
  · have hdiv' : (7 * q + 6 + 1) / 7 = q + 1 := by omega
    have hmod' : (7 * q + 6 + 1) % 7 = 0 := by omega
    simp only [System.sweeping, System.sweeps, hdiv, hmod, hdiv', hmod']
    rfl
  have hdiv' : (7 * q + r + 1) / 7 = q := by omega
  have hmod' : (7 * q + r + 1) % 7 = r + 1 := by omega
  simp only [System.sweeping, System.sweeps, hdiv, hmod, hdiv', hmod', hlength]
  obtain rfl | rfl | rfl | rfl | rfl | rfl : r = 0 ∨ r = 1 ∨ r = 2 ∨ r = 3 ∨ r = 4 ∨ r = 5 := by omega
  · rfl
  · exact last_execs cfg (s.rounds q) (p := .cutoff) rfl ⟨⟨0⟩, 0, []⟩
  · exact last_finds cfg (s.rounds q) (hq .pendingUploads _) ⟨⟨0⟩, 0, []⟩
  · rfl
  · exact last_execs cfg ((s.rounds q).spawn (sweptNothing .pendingUploads)) (p := .cutoff) rfl ⟨⟨0⟩, 0, []⟩
  · exact last_finds cfg ((s.rounds q).spawn (sweptNothing .pendingUploads)) (hq .guestResources _) ⟨⟨0⟩, 0, []⟩

theorem sweeps_not_reject (n i pick : Nat) (e : Err) : s.sweeps n ≠ .reject i pick e := by
  unfold System.sweeps
  dsimp only
  split <;> intro h <;> cases h

theorem rounds_now (q : Nat) : (s.rounds q).world.now = s.world.now + q := by
  induction q with
  | zero => exact (Int.add_zero _).symm
  | succ q ih =>
    simp only [System.rounds, ih]
    exact Int.add_assoc _ _ _

/-- A run after which nothing is left to sweep goes on with rounds of both sweeps. -/
theorem sweepsGoOn_of_swept (h : Swept s) {as : List Action} (hrun : (platform cfg).run System.empty as = some s)
    (hno : as.all (fun a => !a.isReject) = true) (hnow : 0 ≤ s.world.now) : ∃ state act, (platform cfg).Run state act ∧
      SweepsGoOn cfg state act ∧ ∀ n, n < as.length → (platform cfg).run System.empty (as.take n) = some (state n) := by
  refine ⟨_, _, Lts.Run.append rfl hrun (s.sweeping cfg) s.sweeps rfl (h.step cfg), ⟨fun i _ hpossible => ?_, fun kind => ?_, fun t => ?_⟩,
    fun n hn => ?_⟩
  · -- at the end of a round no task awaits a call
    obtain ⟨N, hN⟩ := eventually_atTop.1 hpossible
    obtain ⟨t, pick, aw, ht, hn⟩ := hN (as.length + 7 * N) (by omega)
    have hstate : s.sweeping cfg (7 * N) = s.rounds N := by
      simp [System.sweeping]
    rw [if_pos (Nat.le_add_right _ _), Nat.add_sub_cancel_left, hstate] at ht
    rw [next_of_over ((h.rounds N).ended t (List.mem_of_getElem? ht))] at hn
    cases hn
  · have hact : ∀ k, as[as.length + k]?.getD (s.sweeps (as.length + k - as.length)) = s.sweeps k := by
      intro k
      rw [List.getElem?_eq_none (Nat.le_add_right _ _), Option.getD_none, Nat.add_sub_cancel_left]
    have hthrough : ∀ state i, RunsThrough state (fun n => as[n]?.getD (s.sweeps (n - as.length))) i := by
      intro state i m pick e kind p hrej
      dsimp only at hrej
      cases hm : as[m]? with
      | none =>
        rw [hm, Option.getD_none] at hrej
        exact absurd hrej (sweeps_not_reject _ _ _ _)
      | some a =>
        rw [hm, Option.getD_some] at hrej
        subst hrej
        cases List.all_eq_true.1 hno _ (List.mem_of_getElem? hm)
    refine frequently_atTop.2 (fun N => ?_)
    cases kind with
    | pendingUploads =>
      refine ⟨as.length + 7 * N, by omega, ?_, hthrough _ _⟩
      rw [hact]
      simp [System.sweeps]
    | guestResources =>
      refine ⟨as.length + (7 * N + 3), by omega, ?_, hthrough _ _⟩
      rw [hact]
      have hmod : (7 * N + 3) % 7 = 3 := by omega
      simp [System.sweeps, hmod]
  · refine ⟨as.length + 7 * t.toNat, ?_⟩
    have hstate : s.sweeping cfg (7 * t.toNat) = s.rounds t.toNat := by
      simp [System.sweeping]
    rw [if_pos (Nat.le_add_right _ _), Nat.add_sub_cancel_left, hstate, rounds_now]
    exact Int.le_trans (Int.self_le_toNat t) (Int.le_add_of_nonneg_left hnow)
  · rw [if_neg (Nat.not_le_of_lt hn)]
    exact Lts.run_take hrun n

/-- A guest confirms one upload and reserves another, and an hour later both sweeps run. -/
def sweptVisit : List Action :=
  Trace.upload ++ [.request (.createUploadUrl (Trace.uuid 1) ⟨"b.png", "image/png", 7⟩) (Trace.uuid 4), Trace.call 2 11, Trace.call 2 0,
    Trace.call 2 0, .tick 3600001, .startSweep .pendingUploads] ++ Trace.calls 3 [0, 0, 0, 0] ++ [.startSweep .guestResources] ++
    Trace.calls 4 [0, 0, 0, 0]

/-- Its reservation and its file are cleared away. -/
theorem sweptVisit_clears : ∃ state act, (platform Config.default).Run state act ∧ SweepsGoOn Config.default state act ∧
    (∃ n, (∃ file ∈ (state n).world.db.files, file.status = .pending) ∧
      ∃ file ∈ (state n).world.db.files, file.status = .ready ∧ Guest (state n) file.userId) ∧ SweepsClear state := by
  have hrun : ((platform Config.default).run System.empty sweptVisit).any (fun s =>
      s.world.db.files.rows.all (fun file => file.status = .deleted) && s.tasks.all Task.over && decide (0 ≤ s.world.now)) = true := by
    decide +kernel
  have hbefore : ((platform Config.default).run System.empty (sweptVisit.take 15)).any (fun s =>
      s.world.db.users.rows.isEmpty && s.world.db.files.rows.any (fun file => file.status = .pending) &&
        s.world.db.files.rows.any (fun file => file.status = .ready)) = true := by
    decide +kernel
  obtain ⟨s, hs, htest⟩ := (Option.any_eq_true _ _).1 hrun
  simp only [Bool.and_eq_true, List.all_eq_true, decide_eq_true_eq] at htest
  obtain ⟨⟨hfiles, hover⟩, hnow⟩ := htest
  obtain ⟨state, act, hr, hgo, htaken⟩ := sweepsGoOn_of_swept ⟨hfiles, hover⟩ hs (by decide) hnow
  refine ⟨state, act, hr, hgo, ⟨15, ?_⟩, sweeps_clear hr hgo⟩
  obtain ⟨s₁, hs₁, htest⟩ := (Option.any_eq_true _ _).1 hbefore
  cases (htaken 15 (by decide)).symm.trans hs₁
  simp only [Bool.and_eq_true, List.isEmpty_iff, List.any_eq_true, decide_eq_true_eq] at htest
  obtain ⟨⟨husers, file, hfile, hpending⟩, file', hfile', hready⟩ := htest
  refine ⟨⟨file, hfile, hpending⟩, file', hfile', hready, fun user huser => ?_⟩
  rw [Table.mem_def, husers] at huser
  cases huser

end FileProcessing
