import FileProcessing.Theorems.ConfirmedUpload
import FileProcessing.Lemmas.Objects

/-!
# Confirmations of one upload that overlap

A confirmation looks at the status when it starts and again in the guarded update. A repeated confirmation that starts after the
update returns the ready row; one that has read the row as pending before another's update is told that the file is not pending. So
every confirmation of an upload returns exactly when no two are between their read and their update at once. One of them changes the
row in any case.
-/

namespace FileProcessing

open FileService

variable {cfg : Config} {s s' : System} {a : Action} {file row : FileRow}

/-! ## The statement -/

/-- The row is pending, and an object of the reserved size is under its path. -/
structure Uploaded (s : System) (file : FileRow) : Prop where
  row : file ∈ s.world.db.files
  pending : file.status = .pending
  object : ∃ object, s.world.bucket file.storagePath = some object ∧ (object.size : Int) = file.size

/-- The step neither deletes nor sweeps the file, and fails no call of its owner to confirm it. -/
def undisturbed (file : FileRow) (s : System) : Action → Bool
  | .exec i _ _ =>
    match s.tasks[i]? with
    | some (.deleteFile u f .softDelete) => !(u = file.userId && f = file.id)
    | some (.sweep _ (.removeObject g _ _)) | some (.sweep _ (.removeRow g _ _)) => g.id ≠ file.id
    | _ => true
  | .reject i _ _ =>
    match s.tasks[i]? with
    | some (.confirmUpload u f _) => !(u = file.userId && f = file.id)
    | _ => true
  | _ => true

/-- The condition on the steps of a run. -/
def Undisturbed (file : FileRow) (s : System) (a : Action) : Prop := undisturbed file s a = true

/-- Task `i` is a call of the owner to confirm the file, at the given point. -/
def ConfirmsAt (file : FileRow) (s : System) (i : Nat) (p : ConfirmUpload) : Prop :=
  s.tasks[i]? = some (.confirmUpload file.userId file.id p)

/-- The call has ended. -/
def Ended (p : ConfirmUpload) : Prop := (∃ x, p = .returned x) ∨ ∃ e, p = .threw e

/-- The call has read the row and not yet updated it. -/
def PastRead (p : ConfirmUpload) : Prop := (∃ x, p = .statObject x) ∨ ∃ x, p = .markReady x

/-- Task `i` is one of the calls of the run from `s₀`: a call that has not ended before. -/
def OfRun (file : FileRow) (s₀ : System) (i : Nat) : Prop := ∀ p, ConfirmsAt file s₀ i p → ¬ Ended p

/-- The step changes what the table has under the id of the file. -/
def Changes (cfg : Config) (file : FileRow) (step : System × Action) : Prop :=
  ∃ s', (platform cfg).step step.1 step.2 = some s' ∧ s'.world.db.files.find? file.id ≠ step.1.world.db.files.find? file.id

/-- Of the steps of the past one changes the row, and it is a step of one of the calls. -/
def ChangedOnce (cfg : Config) (file : FileRow) (past : List (System × Action)) : Prop :=
  ∃ before step after, past = after ++ step :: before ∧ Changes cfg file step ∧
    (∃ i p, step.2.actor = some i ∧ ConfirmsAt file step.1 i p) ∧ ∀ x ∈ after ++ before, ¬ Changes cfg file x

/-- Every call of the run has returned the file as ready, and one of them has changed the row. -/
def AllConfirmed (cfg : Config) (file : FileRow) (s₀ s : System) (past : List (System × Action)) : Prop :=
  (∀ i p, OfRun file s₀ i → ConfirmsAt file s i p → ∃ x, p = .returned x ∧ x.id = file.id ∧ x.status = .ready) ∧
    ChangedOnce cfg file past

/-- No two calls are between their read and their update at once. -/
def OneAtATime (file : FileRow) (s : System) : Prop :=
  ∀ i j p q, ConfirmsAt file s i p → ConfirmsAt file s j q → PastRead p → PastRead q → i = j

/-- The calls that confirm a file in a run that neither deletes nor sweeps it, all of which have ended, have all confirmed it exactly
when the condition held in every state of the run. -/
def ConfirmedWhen (cfg : Config) (condition : FileRow → System → Prop) : Prop :=
  ∀ s₀ file s past, (platform cfg).Reach Lts.Free s₀ → Uploaded s₀ file →
    (platform cfg).withPast.Steps (Lts.onSteps (Undisturbed file)) (s₀, []) (s, past) →
    (∃ i p, OfRun file s₀ i ∧ ConfirmsAt file s i p) → (∀ i p, OfRun file s₀ i → ConfirmsAt file s i p → Ended p) →
    (AllConfirmed cfg file s₀ s past ↔ ∀ step ∈ past, condition file step.1)

/-! ## What a step does to the row and to the object -/

/-- The row of the file is pending or ready, and its object stands. -/
structure Standing (s : System) (file row : FileRow) : Prop where
  mem : row ∈ s.world.db.files
  same : SameFile file row
  status : row.status = .pending ∨ row.status = .ready
  upload : ∃ r, IsUploadKey file.storagePath r
  object : ∃ object, s.world.bucket file.storagePath = some object ∧ (object.size : Int) = file.size

/-- No call deletes or sweeps the file. -/
theorem not_removed (hok : Undisturbed file s a) {i pick : Nat} {ch : Choice} (ha : a = .exec i pick ch) :
    s.tasks[i]? ≠ some (.deleteFile file.userId file.id .softDelete) ∧
      ∀ kind g rest count, s.tasks[i]? = some (.sweep kind (.removeObject g rest count)) ∨
        s.tasks[i]? = some (.sweep kind (.removeRow g rest count)) → g.id ≠ file.id := by
  subst ha
  constructor
  · intro ht
    simp [Undisturbed, undisturbed, ht] at hok
  · rintro kind g rest count (ht | ht)
    all_goals simpa [Undisturbed, undisturbed, ht] using hok

/-- A step leaves the row as it is, or it is the update of a call and the row becomes ready. -/
theorem row_step (hok : Undisturbed file s a) (h : Stepped cfg s a s') (hS : Standing s file row) :
    row ∈ s'.world.db.files ∨ (row.status = .pending ∧ (∃ i x, a.actor = some i ∧ ConfirmsAt file s i (.markReady x)) ∧
      ∃ row' ∈ s'.world.db.files, SameFile file row' ∧ row'.status = .ready) := by
  rcases tables_step h with ⟨hfiles, -⟩ | ⟨i, pick, ch, t, aw, ha, ht, hn, hw⟩
  · exact Or.inl (hfiles ▸ hS.mem)
  have hwrote : Wrote s a i t ch aw.call.effect := ⟨⟨pick, ha⟩, ht, cfg, pick, aw, hn, rfl⟩
  obtain ⟨hdelete, hsweep⟩ := not_removed hok ha
  have hid : row.id = file.id := hS.same.id.symm
  have huser : row.userId = file.userId := hS.same.userId.symm
  rw [hw]
  rcases files_kept ch aw.call.effect hS.mem with ⟨row', hrow', hwr⟩ | he
  · generalize aw.call.effect = e at hwr hrow' hwrote
    cases hwr with
    | same => exact Or.inl hrow'
    | deleted =>
      exfalso
      rcases row_deleter hwrote with rfl | ⟨g, rest, count, rfl, -, hg⟩
      · rw [huser, hid] at ht
        exact hdelete ht
      · exact hsweep _ g rest count (Or.inr ht) (hg.trans hid)
    | ready _ hp =>
      obtain ⟨x, rfl⟩ := ready_marker hwrote
      rw [huser, hid] at ht
      exact Or.inr ⟨hp, ⟨i, x, by rw [ha]; rfl, ht⟩, _, hrow', ⟨hS.same.id, hS.same.userId, hS.same.storagePath, hS.same.size⟩, rfl⟩
  · exfalso
    rw [he] at hwrote
    obtain ⟨g, rest, count, rfl, -, hg⟩ := row_remover hwrote
    exact hsweep _ g rest count (Or.inr ht) (hg.trans hid)

/-- A step leaves the object in place, with its size. -/
theorem object_step (hr : (platform cfg).Reach Lts.Free s) (hok : Undisturbed file s a) (h : Stepped cfg s a s')
    (hS : Standing s file row) : ∃ object, s'.world.bucket file.storagePath = some object ∧ (object.size : Int) = file.size := by
  obtain ⟨object, hobject, hsize⟩ := hS.object
  obtain ⟨r, hkey⟩ := hS.upload
  rcases bucket_step h file.storagePath with hsame | ⟨policy, size, -, hp, hmin, hmax, hpath, hnew⟩ | ⟨i, t, ch, e, hw, hw'⟩
  · exact ⟨object, hsame.trans hobject, hsize⟩
  · -- a policy admits an object of the reserved size and no other
    obtain ⟨-, hminLength, hmaxLength⟩ :=
      (policiesAdmit hr policy hp).2 row (.row hS.mem) (hS.same.storagePath.symm.trans hpath.symm)
    have hrow := hS.same.size
    exact ⟨⟨size⟩, hnew, by dsimp only; omega⟩
  · exfalso
    rcases hw' with ⟨size, rfl, -⟩ | ⟨rfl, -⟩
    · obtain ⟨k, data, p, b, -, -, -, hout⟩ := object_putter hw
      exact hkey.not_output hout
    · obtain ⟨kind, g, rest, count, rfl, hpath⟩ := object_remover hw
      have hseen : Seen s g := .item i kind _ hw.task List.mem_cons_self
      have hid : g.id = row.id := (uploadsRegistered hr).unique hseen (.row hS.mem)
        ⟨r, hpath ▸ hkey, hS.same.storagePath ▸ hkey⟩
      obtain ⟨pick, ha⟩ := hw.action
      exact (not_removed hok ha).2 kind g rest count (Or.inl hw.task) (hid.trans hS.same.id.symm)

/-- The row stays as it is, or it is the update of a call that makes it ready. -/
def RowMoves (file : FileRow) (s : System) (a : Action) (row row' : FileRow) : Prop :=
  row' = row ∨ (row.status = .pending ∧ row'.status = .ready ∧ ∃ i x, a.actor = some i ∧ ConfirmsAt file s i (.markReady x))

/-- The row, or the row it has become, stands after the step. -/
theorem standing_step (hr : (platform cfg).Reach Lts.Free s) (hok : Undisturbed file s a) (h : Stepped cfg s a s')
    (hS : Standing s file row) : ∃ row', Standing s' file row' ∧ RowMoves file s a row row' := by
  have hobject := object_step hr hok h hS
  rcases row_step hok h hS with hrow | ⟨hp, hcall, row', hrow', hsame, hready⟩
  · exact ⟨row, ⟨hrow, hS.same, hS.status, hS.upload, hobject⟩, Or.inl rfl⟩
  · exact ⟨row', ⟨hrow', hsame, Or.inr hready, hS.upload, hobject⟩, Or.inr ⟨hp, hready, hcall⟩⟩

theorem RowMoves.ready {row' : FileRow} (h : RowMoves file s a row row') (hp : row.status = .ready) : row'.status = .ready := by
  rcases h with rfl | ⟨hpend, -⟩
  · exact hp
  · rw [hp] at hpend
    cases hpend

theorem standing_of_uploaded (hr : (platform cfg).Reach Lts.Free s) (h : Uploaded s file) : Standing s file file :=
  ⟨h.row, .refl file, Or.inl h.pending, (pendingUploads hr).rows file h.row h.pending, h.object⟩

/-! ## What a call does -/

/-- What a call becomes in a step, with the row as it was before the step. -/
inductive CallStep (s' : System) (a : Action) (i : Nat) (row : FileRow) : ConfirmUpload → ConfirmUpload → Prop where
  | waits (p : ConfirmUpload) (hw : a.actor ≠ some i) : CallStep s' a i row p p
  | reads (ha : a.actor = some i) (hp : row.status = .pending) : CallStep s' a i row .findById (.statObject row)
  | repeats (hp : row.status = .ready) : CallStep s' a i row .findById (.returned row)
  | checks (ha : a.actor = some i) (x : FileRow) : CallStep s' a i row (.statObject x) (.markReady x)
  | confirms (ha : a.actor = some i) (x updated : FileRow) (hp : row.status = .pending) (hid : updated.id = row.id) (hready : updated.status = .ready)
      (hdone : ∀ r ∈ s'.world.db.files, r.id = row.id → r.userId = row.userId → r.status ≠ .pending) :
      CallStep s' a i row (.markReady x) (.returned updated)
  | loses (x : FileRow) (e : Err) (hp : row.status = .ready) : CallStep s' a i row (.markReady x) (.threw e)

/-- A call whose step is not rejected makes its call. -/
theorem call_step (hr : (platform cfg).Reach Lts.Free s) (hok : Undisturbed file s a) (h : Stepped cfg s a s')
    (hS : Standing s file row) {i : Nat} {p : ConfirmUpload} (hi : ConfirmsAt file s i p) :
    ∃ p', ConfirmsAt file s' i p' ∧ CallStep s' a i row p p' := by
  have ht : s.tasks[i]? = some (.confirmUpload file.userId file.id p) := hi
  obtain ⟨t', ht', hm⟩ := task_forward h ht
  cases hm with
  | waits _ hw => exact ⟨p, ht', .waits p hw⟩
  | @confirmUpload _ _ _ p' aw r pick hn hsettles he =>
    subst he
    refine ⟨_, ht', ?_⟩
    cases hsettles with
    | reject e c hf => simp [Undisturbed, undisturbed, ht] at hok
    | exec ch c =>
      cases p with
      | findById =>
        cases hn
        have hfind : FileRepository.findById s.world.db file.userId file.id = some row :=
          hS.same.userId ▸ hS.same.id ▸ findFile_eq hS.mem
        simp only [Call.exec, hfind]
        rcases hS.status with hp | hp
        · simp only [hp, reduceCtorEq, if_false, ne_eq, not_true_eq_false]
          exact .reads rfl hp
        · simp only [hp, if_true]
          exact .repeats hp
      | statObject x =>
        cases hn
        have hseen : Seen s x := .confirmed i _ _ _ ht (Or.inl rfl)
        have hx : SameFile file x :=
          hS.same.trans ((seenAgree hr) row x (.row hS.mem) hseen
            (hS.same.id.symm.trans ((confirmsOwn hr) i _ _ _ x ht (Or.inl rfl)).symm))
        obtain ⟨object, hobject, hsize⟩ := hS.object
        rw [hx.storagePath] at hobject
        rw [hx.size] at hsize
        simp only [Call.exec, hobject, hsize, ne_eq, not_true_eq_false, if_false]
        exact .checks rfl x
      | markReady x =>
        cases hn
        rcases hS.status with hp | hp
        · have hmark : (FileRepository.markReady s.world.db s.world.now file.userId file.id).1 =
              some { row with status := .ready, updatedAt := s.world.now } := by
            rw [hS.same.userId, hS.same.id]
            exact markReady_eq s.world.now hS.mem hp
          simp only [Call.exec, hmark]
          refine .confirms rfl x _ hp rfl rfl (fun r hmem hid huser => ?_)
          rw [world_of_exec h ht rfl, exec_world] at hmem
          exact markReady_rows hmem (hid.trans hS.same.id.symm) (huser.trans hS.same.userId.symm)
        · have hmark : (FileRepository.markReady s.world.db s.world.now file.userId file.id).1 = none := by
            rw [hS.same.userId, hS.same.id]
            exact markReady_none s.world.now hS.mem (by simp [hp])
          simp only [Call.exec, hmark]
          exact .loses x _ hp
      | returned | threw => cases hn

/-- A call was one before the step, or is new and has read nothing. -/
theorem call_back (hr : (platform cfg).Reach Lts.Free s) (hok : Undisturbed file s a) (h : Stepped cfg s a s')
    (hS : Standing s file row) {i : Nat} {p' : ConfirmUpload} (hi : ConfirmsAt file s' i p') :
    (∃ p, ConfirmsAt file s i p ∧ CallStep s' a i row p p') ∨ (p' = .findById ∧ s.tasks.length ≤ i) := by
  rcases task_back h hi with ⟨t, ht, hm⟩ | ⟨hnew, -⟩
  · obtain ⟨p, rfl, -⟩ := confirm_moves hm
    obtain ⟨q, hq, hstep⟩ := call_step hr hok h hS ht
    have heq : q = p' := by
      have htasks := Option.some.inj (hq.symm.trans hi)
      cases htasks
      rfl
    exact Or.inl ⟨p, ht, heq ▸ hstep⟩
  · obtain ⟨random, -, ht⟩ := requested h hi hnew rfl
    cases ht
    exact Or.inr ⟨rfl, hnew⟩

/-- A call is at one point. -/
theorem ConfirmsAt.unique {i : Nat} {p q : ConfirmUpload} (hp : ConfirmsAt file s i p) (hq : ConfirmsAt file s i q) : p = q := by
  have ht := Option.some.inj (hp.symm.trans hq)
  cases ht
  rfl

/-- A call that is past its read has not ended. -/
theorem PastRead.not_ended {p : ConfirmUpload} (h : PastRead p) : ¬ Ended p := by
  rintro (⟨x, rfl⟩ | ⟨e, rfl⟩) <;> rcases h with ⟨y, hy⟩ | ⟨y, hy⟩ <;> cases hy

/-- A call that has ended stays as it is. -/
theorem CallStep.of_ended {i : Nat} {p p' : ConfirmUpload} (h : CallStep s' a i row p p') (hp : Ended p) : p' = p := by
  cases h with
  | waits => rfl
  | reads | repeats | checks | confirms | loses => rcases hp with ⟨x, hx⟩ | ⟨e, he⟩ <;> contradiction

/-! ## The invariant -/

/-- The call is past its read, and the row is ready; or it has thrown. -/
def LosesRace (file : FileRow) (s : System) (row : FileRow) (i : Nat) : Prop :=
  (∃ p, ConfirmsAt file s i p ∧ PastRead p ∧ row.status = .ready) ∨ ∃ e, ConfirmsAt file s i (.threw e)

/-- Both calls are past their read of a row that is still pending, or one of them loses. -/
def OneLoses (file : FileRow) (s : System) (row : FileRow) (i j : Nat) : Prop :=
  ((∃ p, ConfirmsAt file s i p ∧ PastRead p) ∧ (∃ q, ConfirmsAt file s j q ∧ PastRead q) ∧ row.status = .pending) ∨
    LosesRace file s row i ∨ LosesRace file s row j

/-- Where the calls stand, with the row as it is now and with what the past says of it. -/
structure Tracked (cfg : Config) (file : FileRow) (s₀ s : System) (past : List (System × Action)) (row : FileRow) : Prop where
  standing : Standing s file row
  kept : ∀ i p, ConfirmsAt file s₀ i p → Ended p → ConfirmsAt file s i p
  calls : ∀ i p, OfRun file s₀ i → ConfirmsAt file s i p → p = .findById ∨ PastRead p ∨
    (row.status = .ready ∧ ((∃ e, p = .threw e) ∨ ∃ x, p = .returned x ∧ x.id = file.id ∧ x.status = .ready))
  once : (row.status = .pending ∧ ∀ step ∈ past, ¬ Changes cfg file step) ∨ (row.status = .ready ∧ ChangedOnce cfg file past)
  smooth : (∀ step ∈ past, OneAtATime file step.1) → ∀ i p, OfRun file s₀ i → ConfirmsAt file s i p →
    (∀ e, p ≠ .threw e) ∧ (PastRead p → row.status = .pending)
  lost : ∀ step ∈ past, ∀ i j p q, ConfirmsAt file step.1 i p → ConfirmsAt file step.1 j q → PastRead p → PastRead q → i ≠ j →
    (OfRun file s₀ i ∧ OfRun file s₀ j) ∧ OneLoses file s row i j

section Step

variable {s₀ : System} {past : List (System × Action)} {row' : FileRow} {i j : Nat}
  (hr : (platform cfg).Reach Lts.Free s) (hok : Undisturbed file s a) (h : Stepped cfg s a s') (hS : Standing s file row)
  (hm : RowMoves file s a row row') (hS' : Standing s' file row')
include hr hok h hS hm

/-- A call that loses goes on to lose. -/
theorem loses_step (hl : LosesRace file s row i) : LosesRace file s' row' i := by
  rcases hl with ⟨p, hi, hp, hready⟩ | ⟨e, hi⟩
  · obtain ⟨p', hi', hstep⟩ := call_step hr hok h hS hi
    cases hstep with
    | waits => exact Or.inl ⟨p, hi', hp, hm.ready hready⟩
    | checks ha x => exact Or.inl ⟨_, hi', Or.inr ⟨x, rfl⟩, hm.ready hready⟩
    | loses x e => exact Or.inr ⟨e, hi'⟩
    | confirms ha x updated hpend =>
      rw [hready] at hpend
      cases hpend
    | reads | repeats => rcases hp with ⟨x, hx⟩ | ⟨x, hx⟩ <;> cases hx
  · obtain ⟨p', hi', hstep⟩ := call_step hr hok h hS hi
    rw [hstep.of_ended (Or.inr ⟨e, rfl⟩)] at hi'
    exact Or.inr ⟨e, hi'⟩

include hS'

/-- A call past its read of a pending row stays past it as long as the row is pending. -/
theorem pastRead_step {p : ConfirmUpload} (hi : ConfirmsAt file s i p) (hp : PastRead p) (hpend : row'.status = .pending) :
    ∃ p', ConfirmsAt file s' i p' ∧ PastRead p' := by
  obtain ⟨p', hi', hstep⟩ := call_step hr hok h hS hi
  refine ⟨p', hi', ?_⟩
  cases hstep with
  | waits => exact hp
  | reads => exact Or.inl ⟨row, rfl⟩
  | checks ha x => exact Or.inr ⟨x, rfl⟩
  | confirms ha x updated _ _ _ hdone =>
    have hid : row'.id = row.id := hS'.same.id.symm.trans hS.same.id
    have huser : row'.userId = row.userId := hS'.same.userId.symm.trans hS.same.userId
    exact absurd hpend (hdone row' hS'.mem hid huser)
  | loses x e hready =>
    rw [hm.ready hready] at hpend
    cases hpend
  | repeats => rcases hp with ⟨x, hx⟩ | ⟨x, hx⟩ <;> cases hx

/-- Of two calls past their read one loses in the end. -/
theorem oneLoses_step (hne : i ≠ j) (hl : OneLoses file s row i j) : OneLoses file s' row' i j := by
  rcases hl with ⟨⟨p, hi, hp⟩, ⟨q, hj, hq⟩, hpend⟩ | hl | hl
  · rcases hS'.status with hpend' | hready'
    · exact Or.inl ⟨pastRead_step hr hok h hS hm hS' hi hp hpend', pastRead_step hr hok h hS hm hS' hj hq hpend', hpend'⟩
    · -- the row has become ready by a call, and at least one of the two is not that call
      have hother {k : Nat} {r : ConfirmUpload} (hk : ConfirmsAt file s k r) (hr' : PastRead r) (hw : a.actor ≠ some k) :
          LosesRace file s' row' k := by
        obtain ⟨r', hk', hstep⟩ := call_step hr hok h hS hk
        cases hstep with
        | waits => exact Or.inl ⟨r, hk', hr', hready'⟩
        | loses x e => exact Or.inr ⟨e, hk'⟩
        | reads ha | checks ha | confirms ha => exact absurd ha hw
        | repeats => rcases hr' with ⟨x, hx⟩ | ⟨x, hx⟩ <;> cases hx
      by_cases hactor : a.actor = some i
      · exact Or.inr (Or.inr (hother hj hq (fun he => hne (Option.some.inj (hactor.symm.trans he)))))
      · exact Or.inr (Or.inl (hother hi hp hactor))
  · exact Or.inr (Or.inl (loses_step hr hok h hS hm hl))
  · exact Or.inr (Or.inr (loses_step hr hok h hS hm hl))

end Step

/-! ## What the past says of the row -/

theorem find_standing (hS : Standing s file row) : s.world.db.files.find? file.id = some row :=
  Table.find?_eq_some_iff.2 ⟨hS.mem, hS.same.id.symm⟩

/-- A step that leaves the row as it is changes nothing. -/
theorem not_changes (hs : (platform cfg).step s a = some s') (hS : Standing s file row) (hS' : Standing s' file row) :
    ¬ Changes cfg file (s, a) := by
  rintro ⟨s₁, hs₁, hne⟩
  cases hs.symm.trans hs₁
  rw [find_standing hS, find_standing hS'] at hne
  exact hne rfl

/-- A step that makes the row ready changes it. -/
theorem changes_of_ready {row' : FileRow} (hs : (platform cfg).step s a = some s') (hS : Standing s file row)
    (hS' : Standing s' file row') (hp : row.status = .pending) (hready : row'.status = .ready) : Changes cfg file (s, a) := by
  refine ⟨s', hs, ?_⟩
  rw [find_standing hS, find_standing hS']
  intro he
  rw [Option.some.inj he, hp] at hready
  cases hready

/-- A step more, which changes nothing. -/
theorem ChangedOnce.cons {past : List (System × Action)} {step : System × Action} (h : ChangedOnce cfg file past)
    (hn : ¬ Changes cfg file step) : ChangedOnce cfg file (step :: past) := by
  obtain ⟨before, changing, after, rfl, hc, hcall, hothers⟩ := h
  refine ⟨before, changing, step :: after, rfl, hc, hcall, fun x hx => ?_⟩
  rcases List.mem_cons.1 hx with rfl | hx
  · exact hn
  · exact hothers x hx

/-- What the past says of the row stays true. -/
theorem once_step {past : List (System × Action)} {row' : FileRow} (hs : (platform cfg).step s a = some s')
    (hS : Standing s file row) (hS' : Standing s' file row') (hm : RowMoves file s a row row')
    (hI : (row.status = .pending ∧ ∀ step ∈ past, ¬ Changes cfg file step) ∨ (row.status = .ready ∧ ChangedOnce cfg file past)) :
    (row'.status = .pending ∧ ∀ step ∈ (s, a) :: past, ¬ Changes cfg file step) ∨
      (row'.status = .ready ∧ ChangedOnce cfg file ((s, a) :: past)) := by
  rcases hm with rfl | ⟨hp, hready, i, x, hactor, hi⟩
  · have hn := not_changes hs hS hS'
    rcases hI with ⟨hp, hnone⟩ | ⟨hready, honce⟩
    · refine Or.inl ⟨hp, fun step hstep => ?_⟩
      rcases List.mem_cons.1 hstep with rfl | hstep
      · exact hn
      · exact hnone step hstep
    · exact Or.inr ⟨hready, honce.cons hn⟩
  · rcases hI with ⟨-, hnone⟩ | ⟨hready', -⟩
    · exact Or.inr ⟨hready, past, (s, a), [], rfl, changes_of_ready hs hS hS' hp hready, ⟨i, _, hactor, hi⟩, hnone⟩
    · rw [hp] at hready'
      cases hready'

/-! ## A step keeps track -/

/-- A call that is past its read is one of the run. -/
theorem Tracked.ofRun {s₀ : System} {past : List (System × Action)} (hI : Tracked cfg file s₀ s past row) {i : Nat} {p : ConfirmUpload}
    (hi : ConfirmsAt file s i p) (hp : PastRead p) : OfRun file s₀ i := by
  intro q hq hended
  rw [hi.unique (hI.kept i q hq hended)] at hp
  exact hp.not_ended hended

/-- Where no two calls overlap, no call throws, and a call that is past its read finds the row pending. -/
theorem smooth_step {row' : FileRow} (hone : OneAtATime file s) (hm : RowMoves file s a row row') {i : Nat} {p p' : ConfirmUpload}
    (hi : ConfirmsAt file s i p) (hstep : CallStep s' a i row p p')
    (hI : (∀ e, p ≠ .threw e) ∧ (PastRead p → row.status = .pending)) :
    (∀ e, p' ≠ .threw e) ∧ (PastRead p' → row'.status = .pending) := by
  obtain ⟨hthrew, hpend⟩ := hI
  cases hstep with
  | waits _ hw =>
    refine ⟨hthrew, fun hp => ?_⟩
    rcases hm with rfl | ⟨-, -, j, x, hactor, hj⟩
    · exact hpend hp
    · have hij : i = j := hone i j p _ hi hj hp (Or.inr ⟨x, rfl⟩)
      exact absurd (hij ▸ hactor) hw
  | reads ha hp =>
    refine ⟨fun e he => (by cases he), fun _ => ?_⟩
    rcases hm with rfl | ⟨-, -, j, x, hactor, hj⟩
    · exact hp
    · cases hactor.symm.trans ha
      cases hi.unique hj
  | checks ha x =>
    refine ⟨fun e he => (by cases he), fun _ => ?_⟩
    rcases hm with rfl | ⟨-, -, j, y, hactor, hj⟩
    · exact hpend (Or.inl ⟨x, rfl⟩)
    · cases hactor.symm.trans ha
      cases hi.unique hj
  | loses x e hready =>
    rw [hpend (Or.inr ⟨x, rfl⟩)] at hready
    cases hready
  | repeats | confirms =>
    exact ⟨fun e he => (by cases he), fun hp => by rcases hp with ⟨x, hx⟩ | ⟨x, hx⟩ <;> cases hx⟩

theorem confirms_tracked_step {s₀ : System} {past : List (System × Action)} (hr : (platform cfg).Reach Lts.Free s)
    (hok : Undisturbed file s a) (hs : (platform cfg).step s a = some s') (hI : Tracked cfg file s₀ s past row) :
    ∃ row', Tracked cfg file s₀ s' ((s, a) :: past) row' := by
  have h := step_cases hs
  have hS := hI.standing
  obtain ⟨row', hS', hm⟩ := standing_step hr hok h hS
  refine ⟨row', hS', ?_, ?_, once_step hs hS hS' hm hI.once, ?_, ?_⟩
  · intro i p hi hp
    obtain ⟨p', hi', hstep⟩ := call_step hr hok h hS (hI.kept i p hi hp)
    rwa [hstep.of_ended hp] at hi'
  · intro i p' hrun hi'
    rcases call_back hr hok h hS hi' with ⟨p, hi, hstep⟩ | ⟨rfl, -⟩
    · have hp := hI.calls i p hrun hi
      cases hstep with
      | waits =>
        rcases hp with hp | hp | ⟨hready, hp⟩
        · exact Or.inl hp
        · exact Or.inr (Or.inl hp)
        · exact Or.inr (Or.inr ⟨hm.ready hready, hp⟩)
      | reads => exact Or.inr (Or.inl (Or.inl ⟨row, rfl⟩))
      | checks ha x => exact Or.inr (Or.inl (Or.inr ⟨x, rfl⟩))
      | repeats hready => exact Or.inr (Or.inr ⟨hm.ready hready, Or.inr ⟨row, rfl, hS.same.id.symm, hready⟩⟩)
      | confirms ha x updated hpend hid hready hdone =>
        have hid' : row'.id = row.id := hS'.same.id.symm.trans hS.same.id
        have huser' : row'.userId = row.userId := hS'.same.userId.symm.trans hS.same.userId
        have hready' : row'.status = .ready := hS'.status.resolve_left (hdone row' hS'.mem hid' huser')
        exact Or.inr (Or.inr ⟨hready', Or.inr ⟨updated, rfl, hid.trans hS.same.id.symm, hready⟩⟩)
      | loses x e hready => exact Or.inr (Or.inr ⟨hm.ready hready, Or.inl ⟨e, rfl⟩⟩)
    · exact Or.inl rfl
  · intro hone i p' hrun hi'
    have hone' : OneAtATime file s := hone (s, a) List.mem_cons_self
    have hsmooth := hI.smooth (fun step hstep => hone step (List.mem_cons_of_mem _ hstep))
    rcases call_back hr hok h hS hi' with ⟨p, hi, hstep⟩ | ⟨rfl, -⟩
    · exact smooth_step hone' hm hi hstep (hsmooth i p hrun hi)
    · exact ⟨fun e he => (by cases he), fun hp => by rcases hp with ⟨x, hx⟩ | ⟨x, hx⟩ <;> cases hx⟩
  · intro step hstep i j p q hi hj hp hq hne
    rcases List.mem_cons.1 hstep with rfl | hstep
    · have hlose : OneLoses file s row i j := by
        rcases hS.status with hpend | hready
        · exact Or.inl ⟨⟨p, hi, hp⟩, ⟨q, hj, hq⟩, hpend⟩
        · exact Or.inr (Or.inl (Or.inl ⟨p, hi, hp, hready⟩))
      exact ⟨⟨hI.ofRun hi hp, hI.ofRun hj hq⟩, oneLoses_step hr hok h hS hm hS' hne hlose⟩
    · obtain ⟨hrun, hlose⟩ := hI.lost step hstep i j p q hi hj hp hq hne
      exact ⟨hrun, oneLoses_step hr hok h hS hm hS' hne hlose⟩

/-- In every state of the run. -/
theorem confirms_tracked {s₀ : System} {past : List (System × Action)} (hr : (platform cfg).Reach Lts.Free s₀) (h0 : Uploaded s₀ file)
    (h : (platform cfg).withPast.Steps (Lts.onSteps (Undisturbed file)) (s₀, []) (s, past)) :
    ∃ row, Tracked cfg file s₀ s past row := by
  refine h.invariant_past hr (I := fun s past => ∃ row, Tracked cfg file s₀ s past row) ?_ ?_
  · refine ⟨file, standing_of_uploaded hr h0, fun i p hi _ => hi, ?_, Or.inl ⟨h0.pending, fun step hstep => by cases hstep⟩, ?_, ?_⟩
    · intro i p hrun hi
      have hended := hrun p hi
      cases p with
      | findById => exact Or.inl rfl
      | statObject x => exact Or.inr (Or.inl (Or.inl ⟨x, rfl⟩))
      | markReady x => exact Or.inr (Or.inl (Or.inr ⟨x, rfl⟩))
      | returned x => exact absurd (Or.inl ⟨x, rfl⟩) hended
      | threw e => exact absurd (Or.inr ⟨e, rfl⟩) hended
    · intro _ i p hrun hi
      exact ⟨fun e he => hrun p hi (Or.inr ⟨e, he⟩), fun _ => h0.pending⟩
    · intro step hstep
      cases hstep
  · rintro s past a s' hr ⟨row, hI⟩ hok hs
    exact confirms_tracked_step hr hok hs hI

/-! ## The result -/

/-- The calls that confirm an upload all confirm it exactly when no two of them are between their read and their update at once. -/
theorem confirmed_one_at_a_time (cfg : Config) : ConfirmedWhen cfg OneAtATime := by
  intro s₀ file s past hr h0 h ⟨i₀, p₀, hrun₀, hi₀⟩ hended
  obtain ⟨row, hI⟩ := confirms_tracked hr h0 h
  constructor
  · rintro ⟨hreturned, -⟩ step hstep i j p q hi hj hp hq
    by_contra hne
    obtain ⟨⟨hruni, hrunj⟩, hlose⟩ := hI.lost step hstep i j p q hi hj hp hq hne
    have hno {k : Nat} (hrun : OfRun file s₀ k) (hl : LosesRace file s row k) : False := by
      rcases hl with ⟨r, hk, hpast, -⟩ | ⟨e, hk⟩
      · exact hpast.not_ended (hended k r hrun hk)
      · obtain ⟨x, hx, -⟩ := hreturned k _ hrun hk
        cases hx
    rcases hlose with ⟨⟨r, hk, hpast⟩, -, -⟩ | hl | hl
    · exact hpast.not_ended (hended i r hruni hk)
    · exact hno hruni hl
    · exact hno hrunj hl
  · intro hone
    have hreturned : ∀ i p, OfRun file s₀ i → ConfirmsAt file s i p →
        row.status = .ready ∧ ∃ x, p = .returned x ∧ x.id = file.id ∧ x.status = .ready := by
      intro i p hrun hi
      rcases hI.calls i p hrun hi with rfl | hpast | ⟨hready, ⟨e, rfl⟩ | hret⟩
      · rcases hended i _ hrun hi with ⟨x, hx⟩ | ⟨e, he⟩ <;> contradiction
      · exact absurd (hended i p hrun hi) hpast.not_ended
      · exact absurd rfl ((hI.smooth hone i _ hrun hi).1 e)
      · exact ⟨hready, hret⟩
    refine ⟨fun i p hrun hi => (hreturned i p hrun hi).2, ?_⟩
    rcases hI.once with ⟨hpend, -⟩ | ⟨-, honce⟩
    · rw [(hreturned i₀ p₀ hrun₀ hi₀).1] at hpend
      cases hpend
    · exact honce

/-- The row of the upload, once it is reserved. -/
def reservedRow : FileRow := ⟨Trace.uuid 10, Trace.uuid 1, "a.png", "image/png", 7, Trace.key, .pending, 0, 0⟩

/-- Two confirmations that read the row one after the other, check the object one after the other, and update. -/
def overlapping : List Action :=
  [.request (.confirmUpload (Trace.uuid 1) (Trace.uuid 10)) (Trace.uuid 3),
    .request (.confirmUpload (Trace.uuid 1) (Trace.uuid 10)) (Trace.uuid 4), Trace.call 1 0, Trace.call 2 0, Trace.call 1 0,
    Trace.call 2 0, Trace.call 1 0, Trace.call 2 0]

/-- Every call to confirm has ended, and the second has thrown. -/
def secondThrew (p : System × List (System × Action)) : Bool :=
  p.1.tasks.all (fun t => match t with
    | .confirmUpload _ _ (.returned _) | .confirmUpload _ _ (.threw _) => true
    | .confirmUpload _ _ _ => false
    | _ => true) &&
  match p.1.tasks[(2 : Nat)]? with
  | some (.confirmUpload u f (.threw _)) => u = Trace.uuid 1 && f = Trace.uuid 10
  | _ => false

/-- The upload is reserved and stored, no confirmation has begun, and the two overlap from there. -/
def twoConfirm (s : System) : Bool :=
  s.world.db.files.rows.any (fun row => row = reservedRow) && s.world.bucket Trace.key = some ⟨7⟩ && s.tasks.length = 1 &&
    (((platform Config.default).withPast.when (fun p a => undisturbed reservedRow p.1 a)).run (s, []) overlapping).any secondThrew

/-- Of two confirmations that overlap one is told that the file is not pending. -/
theorem confirmation_lost : ¬ ConfirmedWhen Config.default (fun _ _ => True) := by
  intro hall
  obtain ⟨s₀, hr, hp⟩ := Trace.reach (p := twoConfirm) (show ((platform Config.default).run System.empty (Trace.upload.take 6)).any
    twoConfirm = true by decide +kernel)
  simp only [twoConfirm, Bool.and_eq_true, decide_eq_true_eq, List.any_eq_true] at hp
  obtain ⟨⟨⟨⟨row, hrow, rfl⟩, hobject⟩, hlength⟩, hrun⟩ := hp
  obtain ⟨⟨s, past⟩, hsteps, hthrew⟩ := Lts.steps_of_when hrun
  simp only [secondThrew, Bool.and_eq_true, List.all_eq_true] at hthrew
  obtain ⟨hended, hsecond⟩ := hthrew
  have hrunOf : OfRun reservedRow s₀ 2 := by
    intro p hi
    have hlt := (List.getElem?_eq_some_iff.1 hi).1
    omega
  split at hsecond
  · rename_i u f e ht
    simp only [Bool.and_eq_true, decide_eq_true_eq] at hsecond
    obtain ⟨rfl, rfl⟩ := hsecond
    have hconfirmed := (hall s₀ reservedRow s past hr ⟨hrow, rfl, ⟨7⟩, hobject, rfl⟩ hsteps ⟨2, _, hrunOf, ht⟩ ?_).2 (fun _ _ => trivial)
    · obtain ⟨x, hx, -⟩ := hconfirmed.1 2 _ hrunOf ht
      cases hx
    · intro i p _ hi
      have htest := hended _ (List.mem_of_getElem? hi)
      cases p with
      | returned x => exact Or.inl ⟨x, rfl⟩
      | threw e => exact Or.inr ⟨e, rfl⟩
      | findById | statObject | markReady => cases htest
  · cases hsecond

end FileProcessing
