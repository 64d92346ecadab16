import FileProcessing.Lemmas.Paths
import FileProcessing.Lemmas.References
import FileProcessing.Lemmas.Sweeps

/-!
# What the sweeps leave of a guest

The guest sweep is there to bound the growth of the storage and of the database. It selects the rows that are `ready` and have no
pending or active job; a row that was deleted, by its guest or by the sweep of the pending uploads, is never selected, nor is one
with a job that will not run any more, nor does any sweep know of an object without a row. The two sweeps reclaim a guest exactly
when nothing of the kind is left.
-/

namespace FileProcessing

variable {cfg : Config} {ok : System → Action → Prop} {s s' : System} {g : Uuid}

/-- The user id is a guest's: no row of `users` has it. -/
def Guest (s : System) (g : Uuid) : Prop := ∀ user ∈ s.world.db.users, user.id ≠ g

/-- The rows of the user are older than the ages of both sweeps. -/
def Aged (cfg : Config) (s : System) (g : Uuid) : Prop :=
  ∀ kind : SweepKind,
    (∀ file ∈ s.world.db.files, file.userId = g → file.createdAt < s.world.now - kind.ttlSeconds cfg * 1000 ∧
      file.updatedAt < s.world.now - kind.ttlSeconds cfg * 1000) ∧
    ∀ row ∈ s.world.db.jobs, row.userId = g → row.createdAt < s.world.now - kind.ttlSeconds cfg * 1000 ∧
      row.updatedAt < s.world.now - kind.ttlSeconds cfg * 1000

/-- No attempt of a job of the user runs or is to run. -/
def NoAttemptLeft (s : System) (g : Uuid) : Prop :=
  (∀ (k : Nat) (job : BullJob), s.world.queue[k]? = some job → job.payload.userId = g → job.state = .completed ∨ job.state = .failed) ∧
    ∀ (i k : Nat) data p, s.tasks[i]? = some (.attempt k data p false) → data.userId ≠ g

/-- Nothing of the user is left: no file, no job, no object. -/
structure Reclaimed (s : System) (g : Uuid) : Prop where
  files : ∀ file ∈ s.world.db.files, file.userId ≠ g
  jobs : ∀ row ∈ s.world.db.jobs, row.userId ≠ g
  objects : ∀ key, KeyOf g key → s.world.bucket key = none

/-- The two sweeps, each alone and with no call failing, leave nothing of the user. -/
def Reclaims (cfg : Config) (s : System) (g : Uuid) : Prop :=
  ∀ s₁ s₂, SweptAlone cfg .pendingUploads s s₁ → SweptAlone cfg .guestResources s₁ s₂ → Reclaimed s₂ g

/-- In every reachable state where the rows of a guest are aged and no attempt of a job of theirs is left, the sweeps reclaim the
guest exactly when the condition holds. -/
def GuestsReclaimed (cfg : Config) (holds : System → Uuid → Prop) : Prop :=
  ∀ s g, (platform cfg).Reach Lts.Free s → Guest s g → Aged cfg s g → NoAttemptLeft s g → (Reclaims cfg s g ↔ holds s g)

/-- Every file of the user is ready and has no pending or active job, and every object of theirs is that of a file of theirs. -/
structure Reclaimable (s : System) (g : Uuid) : Prop where
  files : ∀ file ∈ s.world.db.files, file.userId = g → file.status = .ready ∧ FileRepository.hasOpenJob s.world.db file.id = false
  objects : ∀ key, KeyOf g key → s.world.bucket key ≠ none → ∃ file ∈ s.world.db.files, file.userId = g ∧ file.storagePath = key

/-! ## What the two sweeps do to a row -/

/-- A row of the table is the item of its own id. -/
theorem eq_of_itemOf {files : Table FileRow.id} {file item : FileRow} (hf : file ∈ files) (hi : item ∈ files)
    (h : file.itemOf item = true) : file = item := by
  simp only [FileRow.itemOf, FileRepository.owned, Bool.and_eq_true, decide_eq_true_eq] at h
  exact files.eq_of_key_eq hf hi h.1

theorem itemOf_self (file : FileRow) : file.itemOf file = true := by
  simp [FileRow.itemOf, FileRepository.owned]

variable {order : List Uuid}

/-- A row that is not pending outlives the sweep of the pending uploads as it is. -/
theorem outlives_pending (cfg : Config) {w : World} {file : FileRow} (hf : file ∈ w.db.files) (hp : file.status ≠ .pending) :
    file ∈ (SweepKind.pendingUploads.swept cfg order w).db.files := by
  rw [Table.mem_def, SweepKind.swept, foldl_pending_files]
  refine List.mem_map.2 ⟨file, hf, if_neg (fun hany => ?_)⟩
  obtain ⟨item, hitem, hof⟩ := List.any_eq_true.1 hany
  rw [mem_inOrder] at hitem
  obtain rfl := eq_of_itemOf hf (mem_batch hitem) hof
  exact hp (pending_of_batch hitem)

/-- A row that is pending and aged is deleted by it. -/
theorem deleted_by_pending {w : World} {file : FileRow} (hf : file ∈ w.db.files) (hp : file.status = .pending)
    (hage : file.createdAt < w.now - SweepKind.pendingUploads.ttlSeconds cfg * 1000) :
    { file with status := .deleted, updatedAt := w.now } ∈ (SweepKind.pendingUploads.swept cfg order w).db.files := by
  rw [Table.mem_def, SweepKind.swept, foldl_pending_files]
  refine List.mem_map.2 ⟨file, hf, if_pos (List.any_eq_true.2 ⟨file, ?_, itemOf_self file⟩)⟩
  have hbatch : file ∈ FileRepository.findExpiredPending w.db (w.now - SweepKind.pendingUploads.ttlSeconds cfg * 1000) := by
    simp [FileRepository.findExpiredPending, hf, hp, hage]
  exact mem_inOrder.2 hbatch

/-- Where a row after the sweep of the pending uploads comes from. -/
theorem pending_swept_back {w : World} {file' : FileRow} (h : file' ∈ (SweepKind.pendingUploads.swept cfg order w).db.files) :
    ∃ file ∈ w.db.files, SameFile file file' ∧ (file' = file ∨ file'.status = .deleted) := by
  rw [Table.mem_def, SweepKind.swept, foldl_pending_files] at h
  obtain ⟨file, hf, rfl⟩ := List.mem_map.1 h
  refine ⟨file, hf, ?_⟩
  split
  · exact ⟨⟨rfl, rfl, rfl, rfl⟩, Or.inr rfl⟩
  · exact ⟨.refl file, Or.inl rfl⟩

/-- A row is in the batch of a guest sweep exactly when it is ready, aged and without an open job, and its user is a guest. -/
theorem mem_guest_batch {w : World} {file : FileRow} : file ∈ SweepKind.guestResources.batchNow cfg w ↔
    file ∈ w.db.files ∧ (∀ user ∈ w.db.users, user.id ≠ file.userId) ∧ file.status = .ready ∧
      file.updatedAt < w.now - SweepKind.guestResources.ttlSeconds cfg * 1000 ∧ FileRepository.hasOpenJob w.db file.id = false := by
  show file ∈ FileRepository.findExpiredGuestFiles w.db _ ↔ _
  simp [FileRepository.findExpiredGuestFiles, Table.mem_def, and_assoc]

/-- A row is gone after a guest sweep exactly when it was in its batch. -/
theorem guest_swept {w : World} {file : FileRow} : file ∈ (SweepKind.guestResources.swept cfg order w).db.files ↔
    file ∈ w.db.files ∧ file ∉ SweepKind.guestResources.batchNow cfg w := by
  rw [SweepKind.swept, mem_foldl_guest]
  refine and_congr_right (fun hf => ?_)
  rw [List.any_eq_false]
  constructor
  · intro h hmem
    exact h file (mem_inOrder.2 hmem) (itemOf_self file)
  · intro h item hitem hof
    rw [mem_inOrder] at hitem
    exact h (eq_of_itemOf hf (mem_batch hitem) hof ▸ hitem)

/-- An object is gone after a sweep when it was that of an item, and else it is as it was. -/
theorem object_swept (cfg : Config) (kind : SweepKind) (order : List Uuid) (w : World) (key : String) :
    ((kind.swept cfg order w).bucket key = none ∧ ∃ item ∈ kind.batchNow cfg w, item.storagePath = key) ∨
      ((kind.swept cfg order w).bucket key = w.bucket key ∧ ∀ item ∈ kind.batchNow cfg w, item.storagePath ≠ key) := by
  rw [SweepKind.swept, foldl_without_bucket]
  split
  · rename_i hany
    simp only [List.any_eq_true, mem_inOrder, decide_eq_true_eq] at hany
    exact Or.inl ⟨rfl, hany⟩
  · rename_i hany
    simp only [List.any_eq_true, mem_inOrder, decide_eq_true_eq, not_exists, not_and] at hany
    exact Or.inr ⟨rfl, hany⟩

/-! ## The two directions -/

/-- What the sweeps leave of a guest whose files are all ready and without open jobs. -/
theorem reclaims_of_reclaimable (hr : (platform cfg).Reach Lts.Free s) (hg : Guest s g) (ha : Aged cfg s g) (h : Reclaimable s g) :
    Reclaims cfg s g := by
  intro s₁ s₂ h1 h2
  have hr₂ := h2.reach (h1.reach hr)
  obtain ⟨order₁, hw₁⟩ := h1.world
  obtain ⟨order₂, hw₂⟩ := h2.world
  -- every file of the guest outlives the first sweep and is in the batch of the second
  have inBatch {file : FileRow} (hf : file ∈ s.world.db.files) (hu : file.userId = g) :
      file ∈ SweepKind.guestResources.batchNow cfg s₁.world := by
    obtain ⟨hready, hopen⟩ := h.files file hf hu
    rw [mem_guest_batch, hw₁]
    refine ⟨outlives_pending cfg hf (by rw [hready]; decide), ?_, hready, ?_, ?_⟩
    · rw [SweepKind.swept, foldl_without_users, hu]
      exact hg
    · rw [SweepKind.swept, foldl_without_now]
      exact ((ha .guestResources).1 file hf hu).2
    · rw [SweepKind.swept, FileRepository.hasOpenJob, foldl_pending_jobs]
      exact hopen
  have hfiles : ∀ file ∈ s₂.world.db.files, file.userId ≠ g := by
    intro file hf hu
    rw [hw₂, guest_swept] at hf
    obtain ⟨hf₁, hnot⟩ := hf
    rw [hw₁] at hf₁
    obtain ⟨old, hold, hsame, rfl | hdel⟩ := pending_swept_back hf₁
    · exact hnot (inBatch hold hu)
    · have hu' : old.userId = g := hsame.userId.trans hu
      have hout : old ∈ (SweepKind.pendingUploads.swept cfg order₁ s.world).db.files := outlives_pending cfg hold (by rw [(h.files old hold hu').1]; decide)
      obtain rfl := Table.eq_of_key_eq _ hf₁ hout hsame.id.symm
      rw [(h.files _ hold hu').1] at hdel
      cases hdel
  refine ⟨hfiles, fun row hrow hu => ?_, fun key hkey => ?_⟩
  · obtain ⟨file, hf, he⟩ := (referencesStand hr₂ row hrow).input
    exact hfiles file hf (((referencesOwned hr₂ row hrow).input file hf he).trans hu)
  · rw [hw₂]
    rcases object_swept cfg .guestResources order₂ s₁.world key with ⟨hnone, -⟩ | ⟨hsame, hno⟩
    · exact hnone
    · rw [hsame, hw₁]
      rcases object_swept cfg .pendingUploads order₁ s.world key with ⟨hnone, -⟩ | ⟨hsame', -⟩
      · exact hnone
      · rw [hsame']
        by_contra hobj
        obtain ⟨file, hf, hu, hp⟩ := h.objects key hkey hobj
        exact hno file (inBatch hf hu) hp

/-- What the sweeps do not reach of a guest stays. -/
theorem reclaimable_of_reclaims (hr : (platform cfg).Reach Lts.Free s) (ha : Aged cfg s g) (h : Reclaims cfg s g) :
    Reclaimable s g := by
  obtain ⟨s₁, h1⟩ := exists_sweptAlone cfg .pendingUploads s
  obtain ⟨s₂, h2⟩ := exists_sweptAlone cfg .guestResources s₁
  have hdone := h s₁ s₂ h1 h2
  obtain ⟨order₁, hw₁⟩ := h1.world
  obtain ⟨order₂, hw₂⟩ := h2.world
  -- a file of the guest after the first sweep is in the batch of the second
  have swept {file : FileRow} (hf : file ∈ (SweepKind.pendingUploads.swept cfg order₁ s.world).db.files) (hu : file.userId = g) :
      file ∈ SweepKind.guestResources.batchNow cfg s₁.world := by
    by_contra hnot
    exact hdone.files file (by rw [hw₂, guest_swept]; exact ⟨hw₁ ▸ hf, hnot⟩) hu
  refine ⟨fun file hf hu => ?_, fun key hkey hobj => ?_⟩
  · by_cases hp : file.status = .pending
    · have hdel := swept (deleted_by_pending hf hp ((ha .pendingUploads).1 file hf hu).1) hu
      obtain ⟨-, -, hready, -⟩ := mem_guest_batch.1 hdel
      cases hready
    · obtain ⟨-, -, hready, -, hopen⟩ := mem_guest_batch.1 (swept (outlives_pending cfg hf hp) hu)
      refine ⟨hready, ?_⟩
      rwa [hw₁, SweepKind.swept, FileRepository.hasOpenJob, foldl_pending_jobs] at hopen
  · by_contra hno
    -- no item of either sweep is under the key: its row would be one of the guest
    have keeps {file : FileRow} (hf : file ∈ s.world.db.files) : file.storagePath ≠ key := by
      intro hp
      have howned := (pathsOwned hr).rows file hf
      rw [hp] at howned
      exact hno ⟨file, hf, howned.inj hkey, hp⟩
    have hgone := hdone.objects key hkey
    rw [hw₂] at hgone
    rcases object_swept cfg .guestResources order₂ s₁.world key with ⟨-, item, hitem, hp⟩ | ⟨hsame, -⟩
    · have hi := mem_batch hitem
      rw [hw₁] at hi
      obtain ⟨old, hold, hs, -⟩ := pending_swept_back hi
      exact keeps hold (hs.storagePath.trans hp)
    · rw [hsame, hw₁] at hgone
      rcases object_swept cfg .pendingUploads order₁ s.world key with ⟨-, item, hitem, hp⟩ | ⟨hsame', -⟩
      · exact keeps (mem_batch hitem) hp
      · rw [hsame'] at hgone
        exact hobj hgone

/-! ## The result -/

/-- The sweeps reclaim a guest exactly when every file of theirs is ready and without an open job, and every object has its file. -/
theorem guests_reclaimed (cfg : Config) : GuestsReclaimed cfg Reclaimable := by
  intro s g hr hg ha _
  exact ⟨reclaimable_of_reclaims hr ha, reclaims_of_reclaimable hr hg ha⟩

/-- A guest uploads a file and deletes it, and everything ages. -/
def deletedUpload : List Action :=
  Trace.upload ++ [.request (.deleteFile (Trace.uuid 1) (Trace.uuid 10)) (Trace.uuid 4), Trace.call 2 0, Trace.call 2 0, .tick 3600001]

/-- The state of the trace: one aged file, no user, no job. -/
def oneAgedFile (s : System) : Bool :=
  s.world.db.users.rows.isEmpty && s.world.db.jobs.rows.isEmpty && s.world.queue.isEmpty && s.world.now = 3600001 &&
    s.world.db.files.rows.all (fun file => file.createdAt = 0 && file.updatedAt = 0) &&
    s.tasks.all (fun t => match t with
      | .attempt _ _ _ _ => false
      | _ => true)

/-- The sweeps do not reclaim every guest: the row of a file the guest has deleted stays. -/
theorem guest_not_reclaimed : ¬ GuestsReclaimed Config.default (fun _ _ => True) := by
  intro h
  have hrun : ((platform Config.default).run System.empty deletedUpload).any (fun s => oneAgedFile s &&
      s.world.db.files.rows.any (fun file => file.userId = Trace.uuid 1 && file.status = .deleted)) = true := by
    decide +kernel
  obtain ⟨s, hs, hp⟩ := Trace.reach hrun
  rw [Bool.and_eq_true] at hp
  obtain ⟨hone, hleft⟩ := hp
  simp only [oneAgedFile, Bool.and_eq_true, List.isEmpty_iff, decide_eq_true_eq, List.all_eq_true] at hone
  obtain ⟨⟨⟨⟨⟨husers, hjobs⟩, hqueue⟩, hnow⟩, hfiles⟩, htasks⟩ := hone
  have hguest : Guest s (Trace.uuid 1) := by
    intro user hu
    rw [Table.mem_def, husers] at hu
    cases hu
  have haged : Aged Config.default s (Trace.uuid 1) := by
    intro kind
    have hcut : (0 : Int) < s.world.now - kind.ttlSeconds Config.default * 1000 := by
      rw [hnow]
      cases kind <;> decide
    refine ⟨fun file hf _ => ?_, fun row hrow _ => ?_⟩
    · rw [(hfiles file hf).1, (hfiles file hf).2]
      exact ⟨hcut, hcut⟩
    · rw [Table.mem_def, hjobs] at hrow
      cases hrow
  have hnone : NoAttemptLeft s (Trace.uuid 1) := by
    refine ⟨fun k job hk => ?_, fun i k data p hi => ?_⟩
    · rw [hqueue] at hk
      cases hk
    · cases htasks _ (List.mem_of_getElem? hi)
  have hreclaimable := reclaimable_of_reclaims hs haged ((h s _ hs hguest haged hnone).2 trivial)
  obtain ⟨file, hf, hfile⟩ := List.any_eq_true.1 hleft
  rw [Bool.and_eq_true, decide_eq_true_eq, decide_eq_true_eq] at hfile
  obtain ⟨hu, hdeleted⟩ := hfile
  have hready := (hreclaimable.files file hf hu).1
  rw [hdeleted] at hready
  cases hready

end FileProcessing
