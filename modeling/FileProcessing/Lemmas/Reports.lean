import FileProcessing.Lemmas.Steps

/-!
# What an attempt reports, and what it completes its row with

The progress of a report is a percentage, also in a report that a failed `Promise.all` left behind; a completion sets the progress
to 100, clears nothing, and names the output when there is one.
-/

namespace FileProcessing

variable {cfg : Config} {ok : System → Action → Prop} {s s' : System} {a : Action}

/-! ## The reports a failed `Promise.all` leaves behind -/

/-- What is left of a report once one of its calls is rejected. -/
theorem promiseAll_leaves {P : Type} {jobId : Uuid} {n pick : Nat} {todo : List ReportTarget} {pending : List ReportTarget → P}
    {done : P} {threw : Err → P} {aw : Await (P × List Report)} (h : promiseAll jobId n todo pick pending done threw = some aw)
    {res : Except Err aw.α} {r : Report} (hr : r ∈ (aw.resume res).2) : r.jobId = jobId ∧ r.progress = n := by
  unfold promiseAll at h
  split at h
  · cases h
  cases h
  cases res with
  | ok v => cases hr
  | error e =>
    obtain ⟨target, -, rfl⟩ := List.mem_map.1 hr
    exact ⟨rfl, rfl⟩

/-- The default processor is in its loop. -/
def DefaultProcess.InLoop : DefaultProcess → Prop
  | .stage i | .report i _ => i ≤ stages
  | _ => True

/-- The attempt is in the loop of its processor. -/
def Attempt.InLoop : Attempt → Prop
  | .default p => p.InLoop
  | _ => True

theorem stageProgress_le {i : Nat} (h : i ≤ stages) : stageProgress i ≤ 100 := by
  unfold stageProgress stages at *
  omega

/-- An image processor reports percentages. -/
theorem imageProcess_leaves {P : ImageProcessor} {data : JobPayload} {pick : Nat} {p : ImageProcess}
    {aw : Await (ImageProcess × List Report)} (h : imageProcess P data pick p = some aw) {res : Except Err aw.α} {r : Report}
    (hr : r ∈ (aw.resume res).2) : r.jobId = data.jobId ∧ r.progress ≤ 100 := by
  cases p with
  | report33 f todo =>
    obtain ⟨hj, hn⟩ := promiseAll_leaves h hr
    exact ⟨hj, by omega⟩
  | report66 f n todo =>
    obtain ⟨hj, hn⟩ := promiseAll_leaves h hr
    exact ⟨hj, by omega⟩
  | returned | threw => cases h
  | findInput =>
    cases h
    cases res with
    | error e => cases hr
    | ok v => cases v <;> cases hr
  | _ =>
    cases h
    cases res <;> cases hr

/-- The default processor reports percentages. -/
theorem defaultProcess_leaves {data : JobPayload} {pick : Nat} {p : DefaultProcess} {aw : Await (DefaultProcess × List Report)}
    (h : defaultProcess data pick p = some aw) (hp : p.InLoop) {res : Except Err aw.α} {r : Report}
    (hr : r ∈ (aw.resume res).2) : r.jobId = data.jobId ∧ r.progress ≤ 100 := by
  cases p with
  | report i todo =>
    obtain ⟨hj, hn⟩ := promiseAll_leaves h hr
    exact ⟨hj, hn ▸ stageProgress_le hp⟩
  | returned | threw => cases h
  | _ =>
    cases h
    cases res <;> cases hr

/-- The default processor stays in its loop. -/
theorem defaultProcess_inLoop {data : JobPayload} {pick : Nat} {p : DefaultProcess} {aw : Await (DefaultProcess × List Report)}
    (h : defaultProcess data pick p = some aw) (hp : p.InLoop) (res : Except Err aw.α) : (aw.resume res).1.InLoop := by
  cases p with
  | markActive =>
    cases h
    cases res with
    | error e => trivial
    | ok v => exact Nat.le_add_left 1 4
  | stage i =>
    cases h
    cases res with
    | error e => trivial
    | ok v => exact hp
  | report i todo =>
    simp only [defaultProcess, promiseAll] at h
    split at h
    · cases h
    cases h
    cases res with
    | error e => trivial
    | ok v =>
      have hle : i ≤ stages := hp
      dsimp only
      split
      · split
        · rename_i hlt
          exact hlt
        · trivial
      · exact hle
  | complete | publishCompleted =>
    cases h
    cases res <;> trivial
  | returned | threw => cases h

/-- A report that is left was left before, or an attempt whose call failed has just left it. -/
theorem report_back (h : Stepped cfg s a s') {j : Nat} {r : Report} (hj : s'.tasks[j]? = some (.report r false)) :
    s.tasks[j]? = some (.report r false) ∨ ∃ (i k : Nat) (data : JobPayload) (p : Attempt) (b : Bool) (pick : Nat)
      (aw : Await (Attempt × List Report)) (res : Except Err aw.α), s.tasks[i]? = some (.attempt k data p b) ∧
        p.next data pick = some aw ∧ r ∈ (aw.resume res).2 := by
  have left {i pick : Nat} {t : Task} {aw : Await (Task × List Task)} (ht : s.tasks[i]? = some t)
      (hn : t.next cfg pick = some aw) {res : Except Err aw.α} (hr : .report r false ∈ (aw.resume res).2) :
      ∃ (i k : Nat) (data : JobPayload) (p : Attempt) (b : Bool) (pick : Nat) (aw : Await (Attempt × List Report))
        (res : Except Err aw.α), s.tasks[i]? = some (.attempt k data p b) ∧ p.next data pick = some aw ∧ r ∈ (aw.resume res).2 := by
    cases t with
    | attempt k data p b =>
      obtain ⟨aw, haw, rfl⟩ := Option.map_eq_some_iff.1 hn
      obtain ⟨r', hr', he⟩ := List.mem_map.1 hr
      cases he
      exact ⟨i, k, data, p, b, pick, aw, res, ht, haw, hr'⟩
    | report x done =>
      cases done with
      | true => cases hn
      | false =>
        cases hn
        cases hr
    | _ =>
      obtain ⟨aw, -, rfl⟩ := Option.map_eq_some_iff.1 hn
      cases hr
  rcases task_back h hj with ⟨t, ht, hm⟩ | ⟨hle, hsp⟩
  · cases hm with
    | waits => exact Or.inl ht
  · cases h with
    | @exec i pick ch t aw ht hn =>
      rcases Pool.getElem?_replace hj with ⟨rfl, -⟩ | ⟨-, hold⟩ | ⟨-, hmem⟩
      · exact absurd (List.getElem?_eq_some_iff.1 ht).1 (by omega)
      · exact Or.inl hold
      · exact Or.inr (left ht hn hmem)
    | @reject i pick e t aw ht hn hf =>
      rcases Pool.getElem?_replace hj with ⟨rfl, -⟩ | ⟨-, hold⟩ | ⟨-, hmem⟩
      · exact absurd (List.getElem?_eq_some_iff.1 ht).1 (by omega)
      · exact Or.inl hold
      · exact Or.inr (left ht hn hmem)
    | @settle i k data p outcome ht ho =>
      rcases Pool.getElem?_replace hj with ⟨rfl, -⟩ | ⟨-, hold⟩ | ⟨-, hmem⟩
      · exact absurd (List.getElem?_eq_some_iff.1 ht).1 (by omega)
      · exact Or.inl hold
      · cases outcome with
        | ok v => cases hmem
        | error e => cases List.mem_singleton.1 hmem
    | request r random =>
      have hlast := List.getElem?_append_right hle ▸ hj
      have := List.mem_singleton.1 (List.mem_of_getElem? hlast)
      cases r <;> cases this
    | startSweep =>
      have hlast := List.getElem?_append_right hle ▸ hj
      cases List.mem_singleton.1 (List.mem_of_getElem? hlast)
    | deliver =>
      have hlast := List.getElem?_append_right hle ▸ hj
      cases List.mem_singleton.1 (List.mem_of_getElem? hlast)
    | upload | stall | guestSession | register | tick => exact Or.inl hj

/-! ## The progress is a percentage -/

/-- Every attempt is in its loop, and every report that is left is a percentage. -/
structure ReportsBounded (s : System) : Prop where
  attempts : ∀ (i k : Nat) data p b, s.tasks[i]? = some (.attempt k data p b) → p.InLoop
  reports : ∀ (i : Nat) r, s.tasks[i]? = some (.report r false) → r.progress ≤ 100

/-- An attempt stays in its loop. -/
theorem attempt_inLoop {data : JobPayload} {pick : Nat} {p : Attempt} {aw : Await (Attempt × List Report)}
    (h : p.next data pick = some aw) (hp : p.InLoop) (res : Except Err aw.α) : (aw.resume res).1.InLoop := by
  cases p with
  | compress p | convert p =>
    obtain ⟨aw, -, rfl⟩ := Option.map_eq_some_iff.1 h
    trivial
  | default p =>
    obtain ⟨aw, haw, rfl⟩ := Option.map_eq_some_iff.1 h
    exact defaultProcess_inLoop haw hp res

/-- An attempt leaves reports of its job, which are percentages. -/
theorem attempt_leaves {data : JobPayload} {pick : Nat} {p : Attempt} {aw : Await (Attempt × List Report)}
    (h : p.next data pick = some aw) (hp : p.InLoop) {res : Except Err aw.α} {r : Report} (hr : r ∈ (aw.resume res).2) :
    r.jobId = data.jobId ∧ r.progress ≤ 100 := by
  cases p with
  | compress p | convert p =>
    obtain ⟨aw, haw, rfl⟩ := Option.map_eq_some_iff.1 h
    exact imageProcess_leaves haw hr
  | default p =>
    obtain ⟨aw, haw, rfl⟩ := Option.map_eq_some_iff.1 h
    exact defaultProcess_leaves haw hp hr

/-- An attempt starts outside the loop. -/
theorem start_inLoop (data : JobPayload) : (Attempt.start data).InLoop := by
  unfold Attempt.start
  split
  · trivial
  · split <;> trivial

/-- A step keeps the reports bounded. -/
theorem reportsBounded_step (h : Stepped cfg s a s') (hI : ReportsBounded s) : ReportsBounded s' where
  attempts i k data p b hi := by
    rcases task_back h hi with ⟨t, ht, hm⟩ | ⟨-, hsp⟩
    · cases hm with
      | waits | settled => exact hI.attempts i k data p _ ht
      | @attempt _ _ p₀ _ _ aw r _ hn _ he => exact he ▸ attempt_inLoop hn (hI.attempts i k data p₀ b ht) r
    · cases hsp with
      | attempt _ _ _ _ hp => exact hp ▸ start_inLoop data
  reports i r hi := by
    rcases report_back h hi with hold | ⟨j, k, data, p, b, pick, aw, res, hj, hn, hr⟩
    · exact hI.reports i r hold
    · exact (attempt_leaves hn (hI.attempts j k data p b hj) hr).2

/-- In every reachable state. -/
theorem reportsBounded (h : (platform cfg).Reach ok s) : ReportsBounded s := by
  refine h.invariant ?_ (fun s a s' _ hI _ hs => reportsBounded_step (step_cases hs) hI)
  rintro s rfl
  exact ⟨fun i k data p b hi => (nomatch hi), fun i r hi => (nomatch hi)⟩

/-- The call of a `Promise.all` that writes the progress writes the one that is reported. -/
theorem promiseAll_progress {P : Type} {jobId j : Uuid} {n m pick : Nat} {todo : List ReportTarget}
    {pending : List ReportTarget → P} {done : P} {threw : Err → P} {aw : Await (P × List Report)}
    (h : promiseAll jobId n todo pick pending done threw = some aw) (he : aw.call.effect = .updateProgress j m) : m = n := by
  unfold promiseAll at h
  split at h
  · cases h
  rename_i target _
  cases h
  cases target <;> cases he
  rfl

/-- The progress a task writes is a percentage. -/
theorem progress_le (hr : (platform cfg).Reach ok s) {i : Nat} {t : Task} {ch : Choice} {j : Uuid} {n : Nat}
    (hw : Wrote s a i t ch (.updateProgress j n)) : n ≤ 100 := by
  obtain ⟨cfg', pick, aw, hn, he⟩ := hw.call
  cases hw.writes with
  | reportProgress r => exact (reportsBounded hr).reports i r hw.task
  | attempt k data p b =>
    have hloop := (reportsBounded hr).attempts i k data p b hw.task
    obtain ⟨aw, haw, rfl⟩ := Option.map_eq_some_iff.1 hn
    cases p with
    | compress p | convert p =>
      obtain ⟨aw, hp, rfl⟩ := Option.map_eq_some_iff.1 haw
      cases p with
      | report33 =>
        have := promiseAll_progress hp he
        omega
      | report66 =>
        have := promiseAll_progress hp he
        omega
      | returned | threw => cases hp
      | _ =>
        cases hp
        cases he
    | default p =>
      obtain ⟨aw, hp, rfl⟩ := Option.map_eq_some_iff.1 haw
      cases p with
      | report k todo => exact promiseAll_progress hp he ▸ stageProgress_le hloop
      | returned | threw => cases hp
      | _ =>
        cases hp
        cases he

/-! ## The completion of a row -/

/-- What an attempt completes its row with. -/
theorem completion_extra {i : Nat} {k : Nat} {data : JobPayload} {p : Attempt} {b : Bool} {ch : Choice} {j : Uuid} {st : JobStatus}
    {ex : JobExtra} {o : Option FileRow} (hw : Wrote s a i (.attempt k data p b) ch (.updateStatus j st ex))
    (hg : p.stage data = .completing o) :
    ex.progress = some 100 ∧ ex.errorMessage = none ∧ ex.outputFileId = o.map (·.id) ∧ (o ≠ none → ex.outputPath = none) := by
  obtain ⟨cfg', pick, aw, hn, he⟩ := hw.call
  obtain ⟨aw, haw, rfl⟩ := Option.map_eq_some_iff.1 hn
  cases p with
  | compress p | convert p =>
    obtain ⟨aw, hp, rfl⟩ := Option.map_eq_some_iff.1 haw
    cases p <;> cases hg
    cases hp
    cases he
    exact ⟨rfl, rfl, rfl, fun _ => rfl⟩
  | default p =>
    obtain ⟨aw, hp, rfl⟩ := Option.map_eq_some_iff.1 haw
    cases p <;> cases hg
    cases hp
    cases he
    exact ⟨rfl, rfl, rfl, fun hno => absurd rfl hno⟩

end FileProcessing
