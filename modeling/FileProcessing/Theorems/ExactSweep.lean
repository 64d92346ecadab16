import FileProcessing.Lemmas.Removals
import FileProcessing.Lemmas.Sweeps

/-!
# A sweep deletes exactly its batch

A sweep that runs while nobody else writes the tables, and whose statements do not fail, removes the rows it has read and no others,
each after one attempt on its object, whichever of these attempts fail.
-/

namespace FileProcessing

variable {cfg : Config} {kind : SweepKind} {fails : FileRow → Bool} {i : Nat} {s s' : System} {a : Action} {db : Db} {before : Time}
  {log : List Effect}

/-- The file whose object the task removes next. -/
def System.removing (s : System) (i : Nat) : Option FileRow :=
  match s.tasks[i]? with
  | some (.sweep _ (.removeObject file _ _)) => some file
  | _ => none

/-- A step while nobody but the task writes the tables, and none of its calls fails but the removals of the objects that are to fail. -/
structure NoOtherWriter (cfg : Config) (fails : FileRow → Bool) (i : Nat) (s : System) (a : Action) : Prop where
  others : a.actor ≠ some i → ∀ s', (platform cfg).step s a = some s' → s'.world.db = s.world.db
  exec : ∀ pick ch, a = .exec i pick ch → (s.removing i).all (fun file => !fails file) = true
  reject : ∀ pick e, a = .reject i pick e → (s.removing i).any fails = true

/-- The write the task attempts in a step, whether the call is executed or fails in transit; `Effect.none` is a read. -/
def attempted (cfg : Config) (i : Nat) (step : System × Action) : Option Effect :=
  match step.2 with
  | .exec j pick _ | .reject j pick _ =>
    if j = i then step.1.tasks[i]?.bind (fun t => (t.next cfg pick).map (·.call.effect)) else none
  | _ => none

/-- What the task has attempted, the first of it first. -/
def attemptedBy (cfg : Config) (i : Nat) (past : List (System × Action)) : List Effect := (past.filterMap (attempted cfg i)).reverse

theorem attemptedBy_cons (cfg : Config) (i : Nat) (step : System × Action) (past : List (System × Action)) :
    attemptedBy cfg i (step :: past) = attemptedBy cfg i past ++ (attempted cfg i step).toList := by
  rw [attemptedBy, List.filterMap_cons]
  cases attempted cfg i step with
  | none => exact (List.append_nil _).symm
  | some e => exact List.reverse_cons

/-- What the sweep attempts for a file: to remove its object, and then its row. -/
def SweepKind.writes (kind : SweepKind) (file : FileRow) : List Effect :=
  match kind with
  | .pendingUploads => [.removeObject file.storagePath, .softDelete file.userId file.id]
  | .guestResources => [.removeObject file.storagePath, .hardDelete file.userId file.id]

/-- What a sweep is there to remove: an upload that was reserved before the cutoff and is still pending; a file that is ready, whose
owner has no account, that has not been updated since the cutoff and of which no job is open. -/
def SweepKind.Expired (kind : SweepKind) (db : Db) (before : Time) (file : FileRow) : Prop :=
  match kind with
  | .pendingUploads => file.status = .pending ∧ file.createdAt < before
  | .guestResources => (∀ user ∈ db.users, user.id ≠ file.userId) ∧ file.status = .ready ∧ file.updatedAt < before ∧
      ∀ job ∈ db.jobs, job.fileId = file.id → job.status ≠ .pending ∧ job.status ≠ .active

/-- The expired files, each once. -/
structure SweepKind.ExpiredFiles (kind : SweepKind) (db : Db) (before : Time) (files : List FileRow) : Prop where
  once : files.Nodup
  expired : ∀ file, file ∈ files ↔ file ∈ db.files ∧ kind.Expired db before file

/-- The sweep has removed the expired files and nothing else: it has read, and then tried the object of each of them once and removed
its row; it returns how many they are; no file is expired any more, and another sweep with this cutoff reads none. -/
structure ExactlySwept (kind : SweepKind) (db : Db) (before : Time) (log : List Effect) (count : Nat) (db' : Db) : Prop where
  swept : ∃ files, kind.ExpiredFiles db before files ∧ count = files.length ∧ log = .none :: files.flatMap kind.writes ∧
    kind.Removed db files db'
  none : ∀ file ∈ db'.files, ¬kind.Expired db' before file
  again : kind.batch db' before = []

/-- What holds at a point of the sweep: the expired files, in the order they were read, are what has been removed and what is left. -/
def Sweep.Halfway (kind : SweepKind) (db : Db) (before : Time) (log : List Effect) (db' : Db) : Sweep → Prop
  | .find since => since = before ∧ log = [] ∧ db' = db
  | .removeObject file rest count => ∃ done, kind.ExpiredFiles db before (done ++ file :: rest) ∧
      count = (done ++ file :: rest).length ∧ log = .none :: done.flatMap kind.writes ∧ kind.Removed db done db'
  | .removeRow file rest count => ∃ done, kind.ExpiredFiles db before (done ++ file :: rest) ∧
      count = (done ++ file :: rest).length ∧ log = .none :: done.flatMap kind.writes ++ [.removeObject file.storagePath] ∧ kind.Removed db done db'
  | .returned count => ∃ done, kind.ExpiredFiles db before done ∧ count = done.length ∧ log = .none :: done.flatMap kind.writes ∧
      kind.Removed db done db'
  | .cutoff | .threw _ => False

/-! ## The batch -/

/-- A row is read exactly if it is expired. -/
theorem mem_batch_iff {file : FileRow} : file ∈ kind.batch db before ↔ file ∈ db.files ∧ kind.Expired db before file := by
  cases kind with
  | pendingUploads =>
    simp only [SweepKind.batch, FileRepository.findExpiredPending, Table.mem_select, SweepKind.Expired, Bool.and_eq_true,
      decide_eq_true_eq]
  | guestResources =>
    simp only [SweepKind.batch, FileRepository.findExpiredGuestFiles, Table.mem_select, SweepKind.Expired, Bool.and_eq_true,
      decide_eq_true_eq, Bool.not_eq_true', List.any_eq_false, FileRepository.hasOpenJob, Bool.or_eq_true, and_assoc, Table.mem_def,
      not_and, not_or, ne_eq]

/-- What a sweep reads are the expired files, in the order the database comes to them. -/
theorem expiredFiles_batch (kind : SweepKind) (order : List Uuid) (db : Db) (before : Time) :
    kind.ExpiredFiles db before (inOrder FileRow.id order (kind.batch db before)) :=
  ⟨(inOrder_perm order _).nodup_iff.2 (nodup_batch kind db before), fun _ => mem_inOrder.trans mem_batch_iff⟩

/-! ## One step -/

/-- At the head of the loop. -/
theorem halfway_loop {db' : Db} {done rest : List FileRow} (hfiles : kind.ExpiredFiles db before (done ++ rest))
    (hremoved : kind.Removed db done db') :
    (Sweep.loop (done ++ rest).length rest).Halfway kind db before (.none :: done.flatMap kind.writes) db' := by
  cases rest with
  | nil =>
    rw [List.append_nil] at hfiles ⊢
    exact ⟨done, hfiles, rfl, rfl, hremoved⟩
  | cons file rest => exact ⟨done, hfiles, rfl, rfl, hremoved⟩

/-- A call of the sweep that is executed. -/
theorem halfway_exec {w : World} {p : Sweep} {aw : Await Sweep} (hp : p.Halfway kind db before log w.db)
    (haw : sweep cfg kind p = some aw) (ch : Choice) :
    (aw.resume (aw.call.exec ch w).1).Halfway kind db before (log ++ [aw.call.effect]) (aw.call.exec ch w).2.db := by
  cases p with
  | cutoff | threw => cases hp
  | returned => cases haw
  | find since =>
    obtain ⟨rfl, rfl, hdb⟩ := hp
    cases haw
    subst hdb
    have hfiles : kind.ExpiredFiles w.db since ([] ++ inOrder FileRow.id ch.order (kind.batch w.db since)) :=
      expiredFiles_batch kind ch.order w.db since
    cases kind <;> exact halfway_loop hfiles (removed_nil _ _)
  | removeObject file rest count =>
    obtain ⟨done, hfiles, hcount, hlog, hremoved⟩ := hp
    cases haw
    exact ⟨done, hfiles, hcount, by rw [hlog]; rfl, hremoved⟩
  | removeRow file rest count =>
    obtain ⟨done, hfiles, rfl, rfl, hremoved⟩ := hp
    have hfile : file ∈ db.files := ((hfiles.expired file).1 (List.mem_append_right done List.mem_cons_self)).1
    have hnew : file ∉ done := fun hdone => (List.nodup_append.1 hfiles.once).2.2 file hdone file List.mem_cons_self rfl
    have hdone := removed_concat hremoved hfile hnew w.now
    have hrest : done ++ file :: rest = done ++ [file] ++ rest := by rw [List.append_assoc, List.singleton_append]
    have hloop := halfway_loop (hrest ▸ hfiles) hdone
    cases haw
    have hlog : .none :: (done ++ [file]).flatMap kind.writes = .none :: done.flatMap kind.writes ++
        [.removeObject file.storagePath] ++ [(kind.removeRow file rest (done ++ file :: rest).length).call.effect] := by
      cases kind <;> simp [SweepKind.writes, SweepKind.removeRow, Call.effect]
    rw [hlog, ← hrest] at hloop
    cases kind <;> exact hloop

/-- The removal of an object that fails. -/
theorem halfway_reject {w : World} {file : FileRow} {rest : List FileRow} {count : Nat}
    (hp : (Sweep.removeObject file rest count).Halfway kind db before log w.db) :
    (Sweep.removeRow file rest count).Halfway kind db before (log ++ [.removeObject file.storagePath]) w.db := by
  obtain ⟨done, hfiles, hcount, hlog, hremoved⟩ := hp
  exact ⟨done, hfiles, hcount, by rw [hlog], hremoved⟩

/-- A step of the sweep attempts the write of its next call, whether the call is executed or not. -/
theorem attempted_own {p : Sweep} {aw : Await Sweep} (hi : s.tasks[i]? = some (.sweep kind p)) (haw : sweep cfg kind p = some aw) :
    (∀ pick ch, attempted cfg i (s, .exec i pick ch) = some aw.call.effect) ∧
      ∀ pick e, attempted cfg i (s, .reject i pick e) = some aw.call.effect := by
  have hnext (pick : Nat) : (Task.sweep kind p).next cfg pick = some (aw.map fun p' => (.sweep kind p', [])) :=
    Option.map_eq_some_iff.2 ⟨aw, haw, rfl⟩
  constructor <;> intros <;> simp only [attempted, hi, if_pos, Option.bind_some, hnext, Option.map_some] <;> rfl

/-- A step of the sweep itself. -/
theorem halfway_own (hstep : Stepped cfg s a s') (hok : NoOtherWriter cfg fails i s a) (hactor : a.actor = some i) {p : Sweep}
    (hi : s.tasks[i]? = some (.sweep kind p)) (hp : p.Halfway kind db before log s.world.db) :
    ∃ p, s'.tasks[i]? = some (.sweep kind p) ∧ p.Halfway kind db before (log ++ (attempted cfg i (s, a)).toList) s'.world.db := by
  cases hstep with
  | @exec _ _ ch _ _ ht hn =>
    cases hactor
    rw [hi] at ht
    cases ht
    obtain ⟨aw, haw, rfl⟩ := Option.map_eq_some_iff.1 hn
    refine ⟨_, Pool.getElem?_replace_self hi, ?_⟩
    have hnext := halfway_exec hp haw ch
    rw [exec_world] at hnext
    rw [(attempted_own hi haw).1]
    exact hnext
  | reject ht hn hf =>
    cases hactor
    rw [hi] at ht
    cases ht
    obtain ⟨aw, haw, rfl⟩ := Option.map_eq_some_iff.1 hn
    refine ⟨_, Pool.getElem?_replace_self hi, ?_⟩
    rw [(attempted_own hi haw).2]
    have hfails := hok.reject _ _ rfl
    cases p with
    | removeObject file rest count =>
      cases haw
      exact halfway_reject hp
    | _ => simp [System.removing, hi] at hfails
  | settle ht =>
    cases hactor
    rw [hi] at ht
    cases ht
  | _ => cases hactor

/-- A step of another leaves the sweep where it is. -/
theorem halfway_other (hstep : Stepped cfg s a s') (hdb : s'.world.db = s.world.db) (hactor : a.actor ≠ some i) {p : Sweep}
    (hi : s.tasks[i]? = some (.sweep kind p)) (hp : p.Halfway kind db before log s.world.db) :
    ∃ p, s'.tasks[i]? = some (.sweep kind p) ∧ p.Halfway kind db before (log ++ (attempted cfg i (s, a)).toList) s'.world.db := by
  have hnone : attempted cfg i (s, a) = none := by
    cases a with
    | exec j | reject j => exact if_neg (fun hj => hactor (congrArg some hj))
    | _ => rfl
  obtain ⟨t, ht, hm⟩ := task_forward hstep hi
  rw [hnone, hdb]
  cases hm with
  | waits => exact ⟨p, ht, by simpa using hp⟩
  | sweep hn hr he =>
    cases a with
    | exec | reject =>
      cases hr
      exact absurd rfl hactor
    | _ => cases hr

/-- What a step of the run makes of the sweep. -/
theorem halfway_step (hs : (platform cfg).step s a = some s') (hok : NoOtherWriter cfg fails i s a)
    (h : ∃ p, s.tasks[i]? = some (.sweep kind p) ∧ p.Halfway kind db before log s.world.db) :
    ∃ p, s'.tasks[i]? = some (.sweep kind p) ∧ p.Halfway kind db before (log ++ (attempted cfg i (s, a)).toList) s'.world.db := by
  obtain ⟨p, hi, hp⟩ := h
  have hstep := step_cases hs
  by_cases hactor : a.actor = some i
  · exact halfway_own hstep hok hactor hi hp
  · exact halfway_other hstep (hok.others hactor s' hs) hactor hi hp

/-! ## The whole run -/

/-- A call of the sweep that is not to fail is executed in such a step. -/
theorem noOtherWriter_exec (cfg : Config) (fails : FileRow → Bool) {p : Sweep} {aw : Await Sweep} (hi : s.tasks[i]? = some (.sweep kind p))
    (haw : sweep cfg kind p = some aw) (hfails : (s.removing i).all (fun file => !fails file) = true) :
    ∃ s' reply, (platform cfg).Steps (NoOtherWriter cfg fails i) s s' ∧ s'.tasks[i]? = some (.sweep kind (aw.resume (.ok reply))) := by
  obtain ⟨s', hs', -, hi'⟩ := sweep_execs cfg hi haw ⟨⟨0⟩, 0, []⟩
  have hok : NoOtherWriter cfg fails i s (.exec i 0 ⟨⟨0⟩, 0, []⟩) := ⟨fun hne => absurd rfl hne, fun _ _ _ => hfails, by nofun⟩
  have hreply : ∃ reply, (aw.call.exec ⟨⟨0⟩, 0, []⟩ s.world).1 = .ok reply := by
    cases p with
    | removeRow file rest count =>
      cases haw
      cases kind <;> exact ⟨_, rfl⟩
    | find since =>
      cases haw
      cases kind <;> exact ⟨_, rfl⟩
    | cutoff | removeObject =>
      cases haw
      exact ⟨_, rfl⟩
    | returned | threw => cases haw
  obtain ⟨reply, hreply⟩ := hreply
  exact ⟨s', reply, .single _ hok hs', hreply ▸ hi'⟩

/-- The removal of an object settles in such a step, as it is to. -/
theorem noOtherWriter_removal (cfg : Config) (fails : FileRow → Bool) {file : FileRow} {rest : List FileRow} {count : Nat}
    (hi : s.tasks[i]? = some (.sweep kind (.removeObject file rest count))) :
    ∃ s', (platform cfg).Steps (NoOtherWriter cfg fails i) s s' ∧ s'.tasks[i]? = some (.sweep kind (.removeRow file rest count)) := by
  have hremoving : s.removing i = some file := by simp [System.removing, hi]
  cases hfails : fails file with
  | false =>
    obtain ⟨s', _, hs', hi'⟩ := noOtherWriter_exec cfg fails hi rfl (by simp [hremoving, hfails])
    exact ⟨s', hs', hi'⟩
  | true =>
    have hok : NoOtherWriter cfg fails i s (.reject i 0 noSuchKey) :=
      ⟨fun hne => absurd rfl hne, by nofun, fun _ _ _ => by simp [hremoving, hfails]⟩
    refine ⟨s.resume i s.world (.sweep kind (.removeRow file rest count), []), .single _ hok ?_, Pool.getElem?_replace_self hi⟩
    simp only [platform, System.step, hi]
    rfl

/-- From the head of the loop the sweep comes to its return. -/
theorem loop_noOtherWriter (cfg : Config) (fails : FileRow → Bool) {count : Nat} {rest : List FileRow} : ∀ {s : System},
    s.tasks[i]? = some (.sweep kind (Sweep.loop count rest)) →
    ∃ s', (platform cfg).Steps (NoOtherWriter cfg fails i) s s' ∧ s'.tasks[i]? = some (.sweep kind (.returned count)) := by
  induction rest with
  | nil =>
    intro s hi
    exact ⟨s, .refl, hi⟩
  | cons file rest ih =>
    intro s hi
    obtain ⟨s₁, hs₁, hi₁⟩ := noOtherWriter_removal cfg fails hi
    obtain ⟨s₂, reply, hs₂, hi₂⟩ := noOtherWriter_exec cfg fails hi₁ rfl (by simp [System.removing, hi₁])
    have hloop : s₂.tasks[i]? = some (.sweep kind (Sweep.loop count rest)) := by
      rw [hi₂]
      cases kind <;> rfl
    obtain ⟨s', hs', hi'⟩ := ih hloop
    exact ⟨s', (hs₁.trans hs₂).trans hs', hi'⟩

/-- From every point a run comes to, the sweep comes to its return. -/
theorem halfway_returns (cfg : Config) (fails : FileRow → Bool) {p : Sweep} (hi : s.tasks[i]? = some (.sweep kind p))
    (hp : p.Halfway kind db before log s.world.db) :
    ∃ s' count, (platform cfg).Steps (NoOtherWriter cfg fails i) s s' ∧ s'.tasks[i]? = some (.sweep kind (.returned count)) := by
  cases p with
  | cutoff | threw => cases hp
  | find since =>
    obtain ⟨s₁, batch, hs₁, hi₁⟩ := noOtherWriter_exec cfg fails hi rfl (by simp [System.removing, hi])
    obtain ⟨s', hs', hi'⟩ := loop_noOtherWriter cfg fails hi₁
    exact ⟨s', _, hs₁.trans hs', hi'⟩
  | removeObject file rest count =>
    have hloop : s.tasks[i]? = some (.sweep kind (Sweep.loop count (file :: rest))) := hi
    obtain ⟨s', hs', hi'⟩ := loop_noOtherWriter cfg fails hloop
    exact ⟨s', count, hs', hi'⟩
  | removeRow file rest count =>
    obtain ⟨s₁, reply, hs₁, hi₁⟩ := noOtherWriter_exec cfg fails hi rfl (by simp [System.removing, hi])
    have hloop : s₁.tasks[i]? = some (.sweep kind (Sweep.loop count rest)) := by
      rw [hi₁]
      cases kind <;> rfl
    obtain ⟨s', hs', hi'⟩ := loop_noOtherWriter cfg fails hloop
    exact ⟨s', count, hs₁.trans hs', hi'⟩
  | returned count => exact ⟨s, count, .refl, hi⟩

/-- The sweep reads with the cutoff, in any state. -/
def System.sweepFrom (s : System) (kind : SweepKind) (before : Time) : System := s.spawn (.sweep kind (.find before))

/-- Where the sweep begins. -/
theorem halfway_start (kind : SweepKind) (s : System) (before : Time) :
    ∃ p, (s.sweepFrom kind before).tasks[s.tasks.length]? = some (.sweep kind p) ∧
      p.Halfway kind s.world.db before [] (s.sweepFrom kind before).world.db :=
  ⟨.find before, List.getElem?_concat_length, rfl, rfl, rfl⟩

/-- Whichever removals of objects fail: in such a run the sweep can always go on to its return, and where it has returned it has
removed exactly its batch. -/
theorem sweep_exact (cfg : Config) (kind : SweepKind) (fails : FileRow → Bool) (s : System) (before : Time) :
    (∀ s', (platform cfg).Steps (NoOtherWriter cfg fails s.tasks.length) (s.sweepFrom kind before) s' →
      ∃ s'' count, (platform cfg).Steps (NoOtherWriter cfg fails s.tasks.length) s' s'' ∧
        s''.tasks[s.tasks.length]? = some (.sweep kind (.returned count))) ∧
    ∀ s' past count,
      (platform cfg).withPast.Steps (Lts.onSteps (NoOtherWriter cfg fails s.tasks.length)) (s.sweepFrom kind before, []) (s', past) →
      s'.tasks[s.tasks.length]? = some (.sweep kind (.returned count)) →
      ExactlySwept kind s.world.db before (attemptedBy cfg s.tasks.length past) count s'.world.db := by
  constructor
  · intro s' hs'
    have hhalf := hs'.induct (fun s' => ∃ log p, s'.tasks[s.tasks.length]? = some (.sweep kind p) ∧
      p.Halfway kind s.world.db before log s'.world.db) ⟨[], halfway_start kind s before⟩ ?_
    · obtain ⟨log, p, hi, hp⟩ := hhalf
      exact halfway_returns cfg fails hi hp
    · rintro s₁ a s₂ ⟨log, h⟩ hok hs
      exact ⟨_, halfway_step hs hok h⟩
  · intro s' past count hs' hi
    have hhalf := hs'.induct (fun x => ∃ p, x.1.tasks[s.tasks.length]? = some (.sweep kind p) ∧
      p.Halfway kind s.world.db before (attemptedBy cfg s.tasks.length x.2) x.1.world.db) (halfway_start kind s before) ?_
    · obtain ⟨p, hp, hdone⟩ := hhalf
      cases hi.symm.trans hp
      obtain ⟨done, hfiles, hcount, hlog, hremoved⟩ := hdone
      have hagain := batch_removed (fun file => (hfiles.expired file).trans mem_batch_iff.symm) hremoved
      refine ⟨⟨done, hfiles, hcount, hlog, hremoved⟩, fun file hfile hexpired => ?_, hagain⟩
      have hbatch := mem_batch_iff.2 ⟨hfile, hexpired⟩
      rw [hagain] at hbatch
      cases hbatch
    · rintro ⟨s₁, past₁⟩ a x h hok hs
      obtain ⟨s₂, hs₂, rfl⟩ := Option.map_eq_some_iff.1 hs
      rw [attemptedBy_cons]
      exact halfway_step hs₂ hok h

end FileProcessing
