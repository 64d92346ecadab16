import FileProcessing.Lemmas.Outputs

/-!
# The output of a job

An image processor stores the object of its output and inserts its row before it completes the job, so whatever fails after the
insert makes BullMQ run the job again, and the next attempt inserts a second row under the same key. One row is created in the
runs that meet `OutputOnce`.
-/

namespace FileProcessing

variable {cfg : Config} {ok : System → Action → Prop}

/-- At most one row is ever created as an output of a job: a row of one state and a row of a later state that are outputs of the
same job are the same row. And no two rows of a state have the same path. -/
def OneOutput (cfg : Config) (ok : System → Action → Prop) : Prop :=
  (∀ s s' jobId, (platform cfg).Reach ok s → (platform cfg).Steps ok s s' →
    ∀ file ∈ s.world.db.files, ∀ file' ∈ s'.world.db.files, IsOutputKey file.storagePath jobId →
      IsOutputKey file'.storagePath jobId → file'.id = file.id) ∧
  ∀ s, (platform cfg).Reach ok s →
    ∀ file ∈ s.world.db.files, ∀ file' ∈ s.world.db.files, file.storagePath = file'.storagePath → file = file'

/-- A job has one output in every run where the conditions of `OutputOnce` are met. -/
theorem one_output (cfg : Config) : OneOutput cfg OutputOnce := by
  refine ⟨fun s s' jobId hr hs file hf file' hf' hkey hkey' => ?_, fun s hr file hf file' hf' he => ?_⟩
  · have hall := hs.preserves (fun s' => Known s' file.storagePath ∧
        ∀ x ∈ s'.world.db.files, SamePlace file.storagePath x.storagePath → x.id = file.id)
      hr ⟨(pathsRegistered hr).known (.row hf), fun x hx he => ((pathsRegistered hr).unique (.row hf) (.row hx) he).symm⟩ (by
        rintro s₁ a s₂ hr₁ ⟨hk, hI⟩ hok hst
        have hst := step_cases hst
        refine ⟨known_step hok hst hk, fun x hx he => ?_⟩
        rcases files_step hst hx with hx₀ | ⟨i, t, ch, e, hw, ⟨old, ho, hwr⟩ | ⟨data, rfl, hrow, hn, hi, hexec⟩⟩
        · exact hI x hx₀ he
        · rw [← hwr.same_file.id]
          exact hI old ho (hwr.same_file.storagePath ▸ he)
        · exact absurd (hk.of_same he) (known_of_insert hr₁ hok hst ⟨i, t, ch, data, hw, hexec, hrow, hn, hi, hx⟩).2)
    exact hall.2 file' hf' (Or.inr ⟨jobId, hkey, hkey'⟩)
  · exact s.world.db.files.eq_of_key_eq hf hf' ((pathsRegistered hr).unique (.row hf) (.row hf') (Or.inl he))

/-- A job may have two outputs: an attempt fails after its insert, and the next one inserts again under the same key. -/
theorem two_outputs : ¬ OneOutput Config.default Lts.Free := by
  rintro ⟨-, h⟩
  have hrun : ((platform Config.default).run System.empty (Trace.repeated ++ Trace.untilOutput 5 31)).any (fun s =>
      s.world.db.files.rows.any (fun file => s.world.db.files.rows.any (fun file' =>
        file.storagePath = file'.storagePath && file.id ≠ file'.id))) = true := by
    decide +kernel
  obtain ⟨s, hs, hp⟩ := Trace.reach hrun
  obtain ⟨file, hf, hp⟩ := List.any_eq_true.1 hp
  obtain ⟨file', hf', hp⟩ := List.any_eq_true.1 hp
  simp only [Bool.and_eq_true, decide_eq_true_eq] at hp
  exact hp.2 (congrArg FileRow.id (h s hs file hf file' hf' hp.1))

end FileProcessing
