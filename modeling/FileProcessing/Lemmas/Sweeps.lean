import FileProcessing.Lemmas.Seen

/-!
# A sweep that runs alone

What a sweep leaves when nothing else happens while it runs and none of its calls fails. It reads its batch, in some order, and removes
one item after the other, so the world it leaves is a fold over the batch: every object of the batch is gone, and its rows are marked deleted by the
one sweep and are gone with the other. Such a run exists from every state.
-/

namespace FileProcessing

variable {cfg : Config} {kind : SweepKind} {s s' : System}

/-- The sweep starts and makes its calls, with nothing in between and none failing, until it returns. -/
def SweptAlone (cfg : Config) (kind : SweepKind) (s s' : System) : Prop :=
  ∃ s₁, (platform cfg).step s (.startSweep kind) = some s₁ ∧
    (platform cfg).Steps (fun _ a => ∃ pick ch, a = .exec s.tasks.length pick ch) s₁ s' ∧
    ∃ count, s'.tasks[s.tasks.length]? = some (.sweep kind (.returned count))

/-- The world without the row of an item, as the sweep removes it. -/
def SweepKind.withoutRow (kind : SweepKind) (w : World) (file : FileRow) : World :=
  match kind with
  | .pendingUploads => { w with db := (FileRepository.softDelete w.db w.now file.userId file.id).2 }
  | .guestResources => { w with db := FileRepository.hardDelete w.db file.userId file.id }

/-- The world without an item. -/
def SweepKind.without (kind : SweepKind) (w : World) (file : FileRow) : World :=
  kind.withoutRow (w.setObject file.storagePath none) file

/-- The rows a sweep finds when it starts now. -/
def SweepKind.batchNow (cfg : Config) (kind : SweepKind) (w : World) : List FileRow :=
  kind.batch w.db (w.now - kind.ttlSeconds cfg * 1000)

/-- The world without the batch, which was read in an order. -/
def SweepKind.swept (cfg : Config) (kind : SweepKind) (order : List Uuid) (w : World) : World :=
  (inOrder FileRow.id order (kind.batchNow cfg w)).foldl kind.without w

/-- The world a sweep leaves, from the point it is at. -/
def Sweep.final (cfg : Config) (kind : SweepKind) (order : List Uuid) (w : World) : Sweep → World
  | .cutoff => kind.swept cfg order w
  | .find before => (inOrder FileRow.id order (kind.batch w.db before)).foldl kind.without w
  | .removeObject file rest _ => rest.foldl kind.without (kind.without w file)
  | .removeRow file rest _ => rest.foldl kind.without (kind.withoutRow w file)
  | .returned _ | .threw _ => w

/-! ## The run -/

@[simp] theorem final_loop (order : List Uuid) (w : World) (count : Nat) (items : List FileRow) :
    (Sweep.loop count items).final cfg kind order w = items.foldl kind.without w := by
  cases items <;> rfl

/-- A call of the sweep leads on to a world the sweep may leave: the order is that of the call that reads the batch. -/
theorem final_exec {p : Sweep} {aw : Await Sweep} (h : sweep cfg kind p = some aw) (ch : Choice) (order : List Uuid) (w : World) :
    ∃ order', (aw.resume (aw.call.exec ch w).1).final cfg kind order (aw.call.exec ch w).2 = p.final cfg kind order' w := by
  cases p with
  | cutoff | removeObject =>
    cases h
    exact ⟨order, rfl⟩
  | find before =>
    cases h
    refine ⟨ch.order, ?_⟩
    cases kind <;> exact final_loop order w _ _
  | removeRow file rest count =>
    cases h
    refine ⟨order, ?_⟩
    cases kind <;> exact final_loop order _ count rest
  | returned | threw => cases h

/-- A sweep in the pool makes its call. -/
theorem sweep_execs (cfg : Config) {i : Nat} {p : Sweep} {aw : Await Sweep} (ht : s.tasks[i]? = some (.sweep kind p))
    (hn : sweep cfg kind p = some aw) (ch : Choice) :
    ∃ s', (platform cfg).step s (.exec i 0 ch) = some s' ∧ s'.world = (aw.call.exec ch s.world).2 ∧
      s'.tasks[i]? = some (.sweep kind (aw.resume (aw.call.exec ch s.world).1)) := by
  refine ⟨s.resume i (aw.call.exec ch s.world).2 (.sweep kind (aw.resume (aw.call.exec ch s.world).1), []), ?_, rfl,
    Pool.getElem?_replace_self ht⟩
  simp only [platform, System.step, ht, Task.next, hn, Option.map_some]
  rfl

/-- From the loop on the sweep comes to its return. -/
theorem loop_returns (cfg : Config) {i count : Nat} {items : List FileRow} : ∀ {s : System},
    s.tasks[i]? = some (.sweep kind (Sweep.loop count items)) →
    ∃ s', (platform cfg).Steps (fun _ a => ∃ pick ch, a = .exec i pick ch) s s' ∧
      s'.tasks[i]? = some (.sweep kind (.returned count)) := by
  induction items with
  | nil =>
    intro s ht
    exact ⟨s, .refl, ht⟩
  | cons file rest ih =>
    intro s ht
    obtain ⟨s₁, hs₁, -, ht₁⟩ := sweep_execs cfg ht rfl ⟨⟨0⟩, 0, []⟩
    obtain ⟨s₂, hs₂, -, ht₂⟩ := sweep_execs cfg ht₁ rfl ⟨⟨0⟩, 0, []⟩
    have hloop : s₂.tasks[i]? = some (.sweep kind (Sweep.loop count rest)) := by
      rw [ht₂]
      cases kind <;> rfl
    obtain ⟨s', hs', ht'⟩ := ih hloop
    exact ⟨s', ((Lts.Steps.single _ ⟨_, _, rfl⟩ hs₁).trans (.single _ ⟨_, _, rfl⟩ hs₂)).trans hs', ht'⟩

/-- A sweep can run alone from every state. -/
theorem exists_sweptAlone (cfg : Config) (kind : SweepKind) (s : System) : ∃ s', SweptAlone cfg kind s s' := by
  have h0 : (s.spawn (.sweep kind .cutoff)).tasks[s.tasks.length]? = some (.sweep kind .cutoff) := List.getElem?_concat_length
  obtain ⟨s₁, hs₁, -, ht₁⟩ := sweep_execs cfg h0 rfl ⟨⟨0⟩, 0, []⟩
  obtain ⟨s₂, hs₂, -, ht₂⟩ := sweep_execs cfg ht₁ rfl ⟨⟨0⟩, 0, []⟩
  have hloop : ∃ items, s₂.tasks[s.tasks.length]? = some (.sweep kind (Sweep.loop items.length items)) := by
    rw [ht₂]
    cases kind <;> exact ⟨_, rfl⟩
  obtain ⟨items, hloop⟩ := hloop
  obtain ⟨s', hs', ht'⟩ := loop_returns cfg hloop
  exact ⟨s', _, rfl, ((Lts.Steps.single _ ⟨_, _, rfl⟩ hs₁).trans (.single _ ⟨_, _, rfl⟩ hs₂)).trans hs', _, ht'⟩

/-- The world a sweep leaves that runs alone. -/
theorem SweptAlone.world (h : SweptAlone cfg kind s s') : ∃ order, s'.world = kind.swept cfg order s.world := by
  obtain ⟨s₁, h1, hs, count, ht⟩ := h
  cases h1
  -- what the sweep may still leave is what it might have left from its start
  have hfinal := hs.induct (fun s' => ∃ p, s'.tasks[s.tasks.length]? = some (.sweep kind p) ∧
    ∀ order, ∃ order', p.final cfg kind order s'.world = kind.swept cfg order' s.world)
    ⟨.cutoff, List.getElem?_concat_length, fun order => ⟨order, rfl⟩⟩ ?_
  · obtain ⟨p, hp, hw⟩ := hfinal
    rw [ht] at hp
    cases hp
    exact hw []
  · rintro s₁ a s₂ ⟨p, hp, hw⟩ ⟨pick, ch, rfl⟩ hst
    have hstep := step_cases hst
    cases hstep with
    | exec ht' hn =>
      rw [hp] at ht'
      cases ht'
      obtain ⟨aw, haw, rfl⟩ := Option.map_eq_some_iff.1 hn
      refine ⟨_, Pool.getElem?_replace_self hp, fun order => ?_⟩
      obtain ⟨order₁, he⟩ := final_exec haw ch order s₁.world
      obtain ⟨order₂, hw⟩ := hw order₁
      refine ⟨order₂, ?_⟩
      rw [← hw, ← he]
      simp only [System.resume, ← exec_world]
      rfl

/-- A sweep that runs alone is a run. -/
theorem SweptAlone.reach (h : SweptAlone cfg kind s s') (hr : (platform cfg).Reach Lts.Free s) : (platform cfg).Reach Lts.Free s' := by
  obtain ⟨s₁, h1, hs, -⟩ := h
  exact (hr.step _ trivial h1).steps (hs.mono (fun _ _ _ => trivial))

/-! ## The world without a list of items -/

variable {w : World} {items : List FileRow}

/-- The item is the row's. -/
def FileRow.itemOf (file item : FileRow) : Bool := FileRepository.owned item.userId item.id file

@[simp] theorem foldl_without_now : (items.foldl kind.without w).now = w.now := by
  induction items generalizing w with
  | nil => rfl
  | cons file rest ih =>
    rw [List.foldl_cons, ih]
    cases kind <;> rfl

@[simp] theorem foldl_without_users : (items.foldl kind.without w).db.users = w.db.users := by
  induction items generalizing w with
  | nil => rfl
  | cons file rest ih =>
    rw [List.foldl_cons, ih]
    cases kind <;> rfl

/-- The objects of the items are gone. -/
theorem foldl_without_bucket (key : String) :
    (items.foldl kind.without w).bucket key = if items.any (fun item => item.storagePath = key) then none else w.bucket key := by
  induction items generalizing w with
  | nil => rfl
  | cons file rest ih =>
    have hone : (kind.without w file).bucket key = if file.storagePath = key then none else w.bucket key := by
      have hset : (w.setObject file.storagePath none).bucket key = if file.storagePath = key then none else w.bucket key := by
        simp only [World.setObject, eq_comm]
      cases kind <;> exact hset
    rw [List.foldl_cons, ih, hone, List.any_cons]
    by_cases hp : file.storagePath = key <;> simp [hp]

/-- The pending sweep leaves the jobs alone. -/
@[simp] theorem foldl_pending_jobs : (items.foldl SweepKind.pendingUploads.without w).db.jobs = w.db.jobs := by
  induction items generalizing w with
  | nil => rfl
  | cons file rest ih =>
    rw [List.foldl_cons, ih]
    rfl

/-- The pending sweep marks the rows of its items deleted. -/
theorem foldl_pending_files : (items.foldl SweepKind.pendingUploads.without w).db.files.rows =
    w.db.files.rows.map (fun file => if items.any file.itemOf then { file with status := .deleted, updatedAt := w.now } else file) := by
  induction items generalizing w with
  | nil => simp
  | cons item rest ih =>
    have hnow : (SweepKind.pendingUploads.without w item).now = w.now := rfl
    have hone : (SweepKind.pendingUploads.without w item).db.files.rows =
        w.db.files.rows.map (fun file => if file.itemOf item then { file with status := .deleted, updatedAt := w.now } else file) :=
      rfl
    rw [List.foldl_cons, ih, hone, hnow, List.map_map]
    refine List.map_congr_left (fun file _ => ?_)
    by_cases hi : file.itemOf item = true
    · have hset : ∀ other, FileRow.itemOf { file with status := .deleted, updatedAt := w.now } other = file.itemOf other :=
        fun _ => rfl
      simp [hi, hset]
    · simp [hi]

/-- The guest sweep removes the rows of its items. -/
theorem mem_foldl_guest {x : FileRow} : x ∈ (items.foldl SweepKind.guestResources.without w).db.files ↔
    x ∈ w.db.files ∧ items.any x.itemOf = false := by
  induction items generalizing w with
  | nil => simp
  | cons item rest ih =>
    have hone : x ∈ (SweepKind.guestResources.without w item).db.files ↔ x ∈ w.db.files ∧ x.itemOf item = false := Table.mem_delete
    rw [List.foldl_cons, ih, hone, List.any_cons, Bool.or_eq_false_iff, and_assoc]

end FileProcessing
