import FileProcessing.Lemmas.Attempts

/-!
# The lock of an entry

An attempt whose lock was taken (BullMQ called it stalled) goes on all the same, without it. `Past G` says of an entry that BullMQ
has done with it, or that the attempt that holds its lock is at a stage of `G`; `past_step` says when it stays so.
-/

namespace FileProcessing

variable {cfg : Config} {ok : System → Action → Prop} {s s' : System} {a : Action}

/-- Attempt `i` holds the lock of its entry. -/
def HoldsLock (s : System) (i k : Nat) : Prop := ∃ job, s.world.queue[k]? = some job ∧ job.state = .active i

/-- A delivery takes the lock of the job. -/
theorem deliver_locks {k : Nat} (h : Stepped cfg s (.deliver k) s') :
    ∃ job', s'.world.queue[k]? = some job' ∧ job'.state = .active s.tasks.length := by
  cases h with
  | @deliver _ job hk hw =>
    refine ⟨{ job with state := .active s.tasks.length }, ?_, rfl⟩
    have hlt : k < s.world.queue.length := (List.getElem?_eq_some_iff.1 hk).1
    simp [System.spawn, hlt]

/-- The entry is completed or given up, or the attempt that holds its lock is at a stage of `G`. -/
def Past (G : BullJob → Stage → Prop) (s : System) (k : Nat) : Prop :=
  ∃ job, s.world.queue[k]? = some job ∧ (job.state = .completed ∨ job.state = .failed ∨
    ∃ i p, job.state = .active i ∧ s.tasks[i]? = some (.attempt k job.payload p false) ∧ G job (p.stage job.payload))

theorem Past.mono {G G' : BullJob → Stage → Prop} {k : Nat} (hle : ∀ job g, G job g → G' job g) (h : Past G s k) : Past G' s k := by
  obtain ⟨job, hk, hc | hc | ⟨i, p, ha, ht, hg⟩⟩ := h
  · exact ⟨job, hk, Or.inl hc⟩
  · exact ⟨job, hk, Or.inr (Or.inl hc)⟩
  · exact ⟨job, hk, Or.inr (Or.inr ⟨i, p, ha, ht, hle _ _ hg⟩)⟩

/-- No attempt of the entry is left. -/
def LastAttempt (job : BullJob) : Prop := attempts ≤ job.attemptsMade + 1

/-- The call of task `i` fails in this step. -/
def CallFails (s : System) (a : Action) (i : Nat) (data : JobPayload) (p : Attempt) : Prop :=
  ∃ pick aw e, p.next data pick = some aw ∧ Settles s i pick a aw.call (.error e)

/-- An entry stays past a stage while its lock is not taken, when an attempt whose call fails is past it still, and none that has
thrown is but the last. -/
theorem past_step {G : BullJob → Stage → Prop} (h : Stepped cfg s a s') {k : Nat}
    (hG : ∀ {job : BullJob} {data : JobPayload} {g g' : Stage} {α : Type} {c : Call α} {v : α},
      StageStep data g c (.ok v) g' → G job g → G job g')
    (hthrew : ∀ job e, G job (.threw e) → LastAttempt job) (hstall : a ≠ .stall k)
    (hfail : ∀ {job i p}, s.world.queue[k]? = some job → s.tasks[i]? = some (.attempt k job.payload p false) →
      G job (p.stage job.payload) → CallFails s a i job.payload p → ∀ e, G job (.threw e))
    (hp : Past G s k) : Past G s' k := by
  obtain ⟨job, hk, hjob⟩ := hp
  obtain ⟨job', hk', hm⟩ := entry_forward h hk
  refine ⟨job', hk', ?_⟩
  rcases hjob with hc | hc | ⟨i, p, ha, ht, hg⟩
  · cases hm with
    | stays => exact Or.inl hc
    | delivered _ hw => rw [hc] at hw; cases hw
    | stalled _ hs => rw [hc] at hs; cases hs
    | finished => exact Or.inl rfl
    | retries _ _ _ hl => rw [hc] at hl; cases hl
    | gaveUp _ _ _ hl => rw [hc] at hl; cases hl
  · cases hm with
    | stays => exact Or.inr (Or.inl hc)
    | delivered _ hw => rw [hc] at hw; cases hw
    | stalled _ hs => rw [hc] at hs; cases hs
    | finished => exact Or.inl rfl
    | retries _ _ _ hl => rw [hc] at hl; cases hl
    | gaveUp => exact Or.inr (Or.inl rfl)
  · cases hm with
    | stays hl =>
      obtain ⟨t', ht', hmt⟩ := task_forward h ht
      cases hmt with
      | waits => exact Or.inr (Or.inr ⟨i, p, ha, ht', hg⟩)
      | @attempt _ _ _ p' _ aw r pick hn hr he =>
        subst he
        refine Or.inr (Or.inr ⟨i, _, ha, ht', ?_⟩)
        have hstep := (attempt_stage hn).2 r
        cases r with
        | error e =>
          rw [hstep.of_error]
          exact hfail hk ht hg ⟨pick, aw, e, hn, hr⟩ e
        | ok v => exact hG hstep hg
      | settled ho hact => exact absurd ha (hl hact ht)
    | delivered _ hw => rw [ha] at hw; cases hw
    | stalled hact => exact absurd hact hstall
    | finished => exact Or.inl rfl
    | retries _ ht' ho hl hmade =>
      rw [ha] at hl
      cases hl
      rw [ht] at ht'
      cases ht'
      rcases outcome_eq (d := job.payload) ho with ⟨_, -, ho'⟩ | ⟨e', hst, -⟩
      · cases ho'
      · rw [hst] at hg
        exact absurd (hthrew job e' hg) (Nat.not_le.2 hmade)
    | gaveUp => exact Or.inr (Or.inl rfl)

/-- The attempt that holds the lock is the one that is past. -/
theorem stage_of_past (hr : (platform cfg).Reach ok s) {G : BullJob → Stage → Prop} {i k l : Nat} {data : JobPayload}
    {p : Attempt} {b : Bool} {job : BullJob} (hp : Past G s l) (hk : s.world.queue[l]? = some job)
    (hj : job.payload.jobId = data.jobId) (hl : HoldsLock s i k) (ht : s.tasks[i]? = some (.attempt k data p b)) :
    G job (p.stage data) := by
  obtain ⟨entry, hentry, hdata⟩ := (locked hr).entry ht
  have hkl : k = l := (oneEntry hr).entries hentry hk (by rw [hdata, hj])
  subst hkl
  obtain ⟨entry', hentry', hact⟩ := hl
  rw [hk] at hentry'
  cases hentry'
  obtain ⟨job', hk', hjob'⟩ := hp
  rw [hk] at hk'
  cases hk'
  rcases hjob' with hc | hc | ⟨i', p', ha, ht', hg⟩
  · rw [hact] at hc
    cases hc
  · rw [hact] at hc
    cases hc
  · rw [hact] at ha
    cases ha
    rw [ht] at ht'
    cases ht'
    exact hg

/-- What becomes of an attempt in a step in which it acts without being settled: its call settles. -/
theorem attempt_acts {i pick k : Nat} {ch : Choice} {data : JobPayload} {p : Attempt} {b : Bool}
    (h : Stepped cfg s (.exec i pick ch) s') (ht : s.tasks[i]? = some (.attempt k data p b)) :
    ∃ aw, p.next data pick = some aw ∧ s'.world = (aw.call.exec ch s.world).2 ∧
      s'.tasks[i]? = some (.attempt k data (aw.resume (aw.call.exec ch s.world).1).1 b) := by
  cases h with
  | exec ht' hn' =>
    rw [ht] at ht'
    cases ht'
    obtain ⟨aw, haw, rfl⟩ := Option.map_eq_some_iff.1 hn'
    exact ⟨aw, haw, (exec_world _ _ _).symm, Pool.getElem?_replace_self ht⟩

/-- A publish that is executed goes through. -/
theorem exec_publish {α : Type} {c : Call α} {m : Message} (he : c.effect = .publish m) (ch : Choice) (w : World) :
    ∃ v, (c.exec ch w).1 = .ok v := by
  cases c with
  | publish m => exact ⟨(), rfl⟩
  | _ => cases he

/-- An update of a status that is executed goes through when there is no row, or the output it refers to exists. -/
theorem exec_updateStatus {α : Type} {c : Call α} {j : Uuid} {st : JobStatus} {ex : JobExtra} (he : c.effect = .updateStatus j st ex)
    (ch : Choice) {w : World} (hex : (∃ row ∈ w.db.jobs, row.id = j) → JobRepository.outputExists w.db ex = true) :
    ∃ v, (c.exec ch w).1 = .ok v := by
  cases c with
  | updateStatus j' st' ex' =>
    cases he
    rcases updateStatus_cases ch w j st ex with ⟨⟨hrow, hno⟩, -⟩ | ⟨row, hrow⟩
    · rw [hex hrow] at hno
      cases hno
    · exact ⟨row, by rw [hrow]⟩
  | _ => cases he

end FileProcessing
