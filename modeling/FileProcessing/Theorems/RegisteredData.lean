import FileProcessing.Lemmas.Paths
import FileProcessing.Lemmas.Tenants

/-!
# The guest sweep and the data of registered users

A guest is whoever has no row of `users`. The sweep reads that once, with its batch, and removes the objects and the rows afterwards.
No id is issued twice, so a guest of the batch has no row later on; the path of an object names the owner of its file, and a job and
its files have one owner.
-/

namespace FileProcessing

variable {env : Env} {ok : Tenants → TenantAction → Prop} {c c' : Tenants} {a : TenantAction} {u : Uuid}

/-! ## The statement -/

/-- The user has a row of `users`. -/
def HasAccount (c : Tenants) (u : Uuid) : Prop := ∃ user ∈ c.world.db.users, user.id = u

/-- The rows of a user, and the objects of their files, are the same after a step. -/
structure DataKept (u : Uuid) (w w' : World) : Prop where
  files : ∀ file ∈ w.db.files, file.userId = u → file ∈ w'.db.files
  jobs : ∀ row ∈ w.db.jobs, row.userId = u → row ∈ w'.db.jobs
  objects : ∀ file ∈ w.db.files, file.userId = u → w'.bucket file.storagePath = w.bucket file.storagePath

/-- No step of a guest sweep touches the data of a user who has an account. -/
def AccountsSpared (env : Env) : Prop :=
  ∀ c c' (i pick : Nat) ch p u, (tenants env).Reach Lts.Free c → c.system.tasks[i]? = some (.sweep .guestResources p) →
    (tenants env).step c (.platform (.exec i pick ch)) = some c' → HasAccount c u → DataKept u c.world c'.world

/-! ## The items of the sweeps -/

/-- The owners of the items are guests, whose ids have been issued, and whose objects are under their paths. -/
def GuestsHeld (c : Tenants) : Prop :=
  ∀ item, HeldItem .guestResources c.system item →
    ¬ HasAccount c item.userId ∧ item.userId ∈ c.world.issued ∧ KeyOf item.userId item.storagePath

/-- Who has no account gets none under an id that has been issued. -/
theorem noAccount_kept (h : TenantStepped env c a c') (hi : u ∈ c.world.issued) (hno : ¬ HasAccount c u) : ¬ HasAccount c' u := by
  rintro ⟨user, hmem, hid⟩
  rcases users_step h with hfaces | ⟨i, ch, email, password, hash, -, -, -, hins, -, hfresh, -⟩
  · obtain ⟨old, hold, hold', -⟩ := SameFaces.mem (Eq.symm hfaces) hmem
    exact hno ⟨old, hold, hold'.trans hid⟩
  · rcases (Table.insert_eq_some hins user).1 hmem with hold | rfl
    · exact hno ⟨user, hold, hid⟩
    · have he : ch.id = u := hid
      exact hfresh (he ▸ hi)

/-- The owner of a row of the batch has no account. -/
theorem noAccount_of_batch {db : Db} {before : Time} {item : FileRow} (h : item ∈ FileRepository.findExpiredGuestFiles db before) :
    ∀ user ∈ db.users, user.id ≠ item.userId := by
  intro user hmem hid
  have hsel := (Table.mem_select.1 h).2
  simp only [Bool.and_eq_true, Bool.not_eq_true', List.any_eq_false, decide_eq_true_eq] at hsel
  exact hsel.1.1.1 user hmem hid

/-- A row of `files` has an owner whose id has been issued, and a path of theirs. -/
theorem row_owner (hr : (tenants env).Reach ok c) {file : FileRow} (hmem : file ∈ c.world.db.files) :
    file.userId ∈ c.world.issued ∧ KeyOf file.userId file.storagePath := by
  obtain ⟨s, hs, users, sessions, rfl, -, -⟩ := mirrored hr
  exact ⟨(ownersIssued hs).files file hmem, (pathsOwned hs).rows file hmem⟩

/-- One step. -/
theorem guestsHeld_step (hr : (tenants env).Reach ok c) (h : TenantStepped env c a c') (hI : GuestsHeld c) : GuestsHeld c' := by
  have later {item : FileRow} (hno : ¬ HasAccount c item.userId) (hi : item.userId ∈ c.world.issued)
      (hkey : KeyOf item.userId item.storagePath) :
      ¬ HasAccount c' item.userId ∧ item.userId ∈ c'.world.issued ∧ KeyOf item.userId item.storagePath :=
    ⟨noAccount_kept h hi hno, issued_kept h hi, hkey⟩
  rintro item ⟨i, p, hi, hp⟩
  rcases platform_or_same h with ⟨b, rfl, hs⟩ | ⟨htasks, -⟩
  · rcases heldItem_back hs ⟨i, p, hi, hp⟩ with hheld | ⟨j, pick, ch, before, -, -, hbatch⟩
    · obtain ⟨hno, hissued, hkey⟩ := hI item hheld
      exact later hno hissued hkey
    · obtain ⟨hissued, hkey⟩ := row_owner hr (mem_batch hbatch)
      exact later (fun ⟨user, hmem, hid⟩ => noAccount_of_batch hbatch user hmem hid) hissued hkey
  · obtain ⟨hno, hissued, hkey⟩ := hI item ⟨i, p, htasks ▸ hi, hp⟩
    exact later hno hissued hkey

/-- In every reachable state. -/
theorem guestsHeld (h : (tenants env).Reach ok c) : GuestsHeld c := by
  refine h.invariant (I := GuestsHeld) ?_ (fun c a c' hr hI _ hs => guestsHeld_step hr (tenants_step_cases hs) hI)
  rintro c rfl item ⟨i, p, hi, -⟩
  cases hi

/-! ## What the sweep removes -/

/-- What a step of a guest sweep does to the world. -/
inductive SweepWrites (p : Sweep) (w : World) : World → Prop where
  | nothing : SweepWrites p w w
  | object (item : FileRow) (hitem : item ∈ p.items) : SweepWrites p w (w.setObject item.storagePath none)
  | row (item : FileRow) (hitem : item ∈ p.items) :
      SweepWrites p w { w with db := FileRepository.hardDelete w.db item.userId item.id }

/-- It removes the object or the row of an item. -/
theorem sweep_writes {cfg : Config} {s s' : System} {i pick : Nat} {ch : Choice} {p : Sweep} (h : Stepped cfg s (.exec i pick ch) s')
    (hi : s.tasks[i]? = some (.sweep .guestResources p)) : SweepWrites p s.world s'.world := by
  cases h with
  | @exec _ _ _ t aw ht hn =>
    cases hi.symm.trans ht
    have hw : Writes (.sweep .guestResources p) aw.call.effect := writes_of_next hn
    show SweepWrites p s.world (aw.call.effect.apply ch s.world)
    generalize aw.call.effect = e at hw
    cases hw with
    | nothing => exact .nothing
    | removeObject kind file rest count => exact .object file List.mem_cons_self
    | hardDelete file rest count => exact .row file List.mem_cons_self

/-- The files a job refers to are of its owner. -/
theorem job_files (hr : (tenants env).Reach ok c) {row : JobRow} (hrow : row ∈ c.world.db.jobs) {f : Uuid}
    (hf : row.fileId = f ∨ row.outputFileId = some f) : ∃ file ∈ c.world.db.files, file.id = f ∧ file.userId = row.userId := by
  obtain ⟨s, hs, users, sessions, rfl, -, -⟩ := mirrored hr
  have hstand := referencesStand hs row hrow
  have hown := referencesOwned hs row hrow
  rcases hf with rfl | ho
  · obtain ⟨file, hmem, hid⟩ := hstand.input
    exact ⟨file, hmem, hid, hown.input file hmem hid⟩
  · obtain ⟨file, hmem, hid⟩ := hstand.output f ho
    exact ⟨file, hmem, hid, hown.output f ho file hmem hid⟩

/-- An item has the owner of the row under its id. -/
theorem item_owner (hr : (tenants env).Reach ok c) {item file : FileRow} (hheld : HeldItem .guestResources c.system item)
    (hmem : file ∈ c.world.db.files) (hid : file.id = item.id) : file.userId = item.userId := by
  obtain ⟨s, hs, users, sessions, rfl, -, -⟩ := mirrored hr
  obtain ⟨i, p, hi, hp⟩ := hheld
  exact (seenAgree hs file item (.row hmem) (.item i .guestResources p hi hp) hid).userId

/-- What is removed with the items of other users is not the user's. -/
theorem dataKept_of_writes (hr : (tenants env).Reach ok c) {p : Sweep} {w' : World} (hw : SweepWrites p c.world w')
    (hheld : ∀ item ∈ p.items, HeldItem .guestResources c.system item) (hkey : ∀ item ∈ p.items, KeyOf item.userId item.storagePath)
    (hne : ∀ item ∈ p.items, item.userId ≠ u) : DataKept u c.world w' := by
  cases hw with
  | nothing => exact ⟨fun file hmem _ => hmem, fun row hmem _ => hmem, fun file _ _ => rfl⟩
  | object item hitem =>
    refine ⟨fun file hmem _ => hmem, fun row hmem _ => hmem, fun file hmem hu => if_neg (fun hpath => ?_)⟩
    have hfile : KeyOf file.userId item.storagePath := hpath ▸ (row_owner hr hmem).2
    exact hne item hitem (((hkey item hitem).inj hfile).trans hu)
  | row item hitem =>
    have other {row : JobRow} (hrow : row ∈ c.world.db.jobs) (hu : row.userId = u)
        (hf : row.fileId = item.id ∨ row.outputFileId = some item.id) : False := by
      obtain ⟨file, hmem, hid, howner⟩ := job_files hr hrow hf
      exact hne item hitem ((item_owner hr (hheld item hitem) hmem hid).symm.trans (howner.trans hu))
    refine ⟨fun file hmem hu => ?_, fun row hmem hu => ?_, fun file _ _ => rfl⟩
    · refine Table.mem_delete.2 ⟨hmem, ?_⟩
      have howned : ¬ (file.id = item.id ∧ file.userId = item.userId) := fun ⟨_, he⟩ => hne item hitem (he.symm.trans hu)
      simpa [FileRepository.owned] using howned
    · exact job_outlives hmem (fun he => other hmem hu (Or.inl he)) (fun he => other hmem hu (Or.inr he))

/-! ## The main result -/

/-- Who has an account loses nothing to the guest sweep. -/
theorem accounts_spared (env : Env) : AccountsSpared env := by
  intro c c' i pick ch p u hr hi hs haccount
  have hheld : ∀ item ∈ p.items, HeldItem .guestResources c.system item := fun item hitem => ⟨i, p, hi, hitem⟩
  cases tenants_step_cases hs with
  | platform _ system step _ =>
    have hwrites : SweepWrites p c.world system.world := sweep_writes (step_cases step) hi
    refine dataKept_of_writes hr hwrites hheld ?_ ?_
    · intro item hitem
      exact (guestsHeld hr item (hheld item hitem)).2.2
    · rintro item hitem rfl
      exact (guestsHeld hr item (hheld item hitem)).1 haccount

end FileProcessing
