/-!
# Runs whose steps all meet a condition

A labelled transition system with an executable step, the runs of it whose every step meets a condition `ok` on the state
before the step and the label, and the induction rules for what holds of every state such a run reaches. `Free` is the
condition that every step meets: its runs are all runs. `Reach.simulate` carries a run over to another system, `run_rel` compares
two runs of one system. `withPast` is the system that carries the steps of the run along, for properties that speak of what has
happened. `Run` is an infinite run, for properties that speak of what will happen.
-/

universe u v w x y

/-- A labelled transition system: where its runs begin, and its step, a partial function of the label. -/
structure Lts (S : Type u) (A : Type v) where
  init : S → Prop
  step : S → A → Option S

namespace Lts

variable {S : Type u} {A : Type v} {M : Lts S A} {ok ok' : S → A → Prop}

/-- The condition every step meets. -/
def Free : S → A → Prop := fun _ _ => True

/-- `M.Steps ok s s'`: a run of `M` from `s` to `s'`, every step of which meets `ok`. -/
inductive Steps (M : Lts S A) (ok : S → A → Prop) (s : S) : S → Prop where
  | refl : Steps M ok s s
  | tail {s₁ s₂ : S} (a : A) : Steps M ok s s₁ → ok s₁ a → M.step s₁ a = some s₂ → Steps M ok s s₂

/-- `M.Reach ok s`: a run from an initial state, every step of which meets `ok`, ends in `s`. -/
def Reach (M : Lts S A) (ok : S → A → Prop) (s : S) : Prop := ∃ s₀, M.init s₀ ∧ M.Steps ok s₀ s

theorem Steps.single {s s' : S} (a : A) (hok : ok s a) (h : M.step s a = some s') : M.Steps ok s s' :=
  .tail a .refl hok h

theorem Steps.trans {s s' s'' : S} (h : M.Steps ok s s') (h' : M.Steps ok s' s'') : M.Steps ok s s'' := by
  induction h' with
  | refl => exact h
  | tail a _ hok hs ih => exact .tail a ih hok hs

/-- A run under a condition is a run under every weaker one. -/
theorem Steps.mono (hle : ∀ s a, ok s a → ok' s a) {s s' : S} (h : M.Steps ok s s') : M.Steps ok' s s' := by
  induction h with
  | refl => exact .refl
  | tail a _ hok hs ih => exact .tail a ih (hle _ _ hok) hs

theorem Reach.init {s : S} (h : M.init s) : M.Reach ok s := ⟨s, h, .refl⟩

theorem Reach.steps {s s' : S} (h : M.Reach ok s) (h' : M.Steps ok s s') : M.Reach ok s' := by
  obtain ⟨s₀, h0, hs⟩ := h
  exact ⟨s₀, h0, hs.trans h'⟩

theorem Reach.step {s s' : S} (h : M.Reach ok s) (a : A) (hok : ok s a) (hs : M.step s a = some s') : M.Reach ok s' :=
  h.steps (.single a hok hs)

theorem Reach.mono (hle : ∀ s a, ok s a → ok' s a) {s : S} (h : M.Reach ok s) : M.Reach ok' s := by
  obtain ⟨s₀, h0, hs⟩ := h
  exact ⟨s₀, h0, hs.mono hle⟩

/-- What holds of a state and is preserved by every step a reachable state takes holds at the end of the run. -/
theorem Steps.preserves (I : S → Prop) {s s' : S} (hr : M.Reach ok s) (h : M.Steps ok s s') (hI : I s)
    (hstep : ∀ s a s', M.Reach ok s → I s → ok s a → M.step s a = some s' → I s') : I s' := by
  induction h with
  | refl => exact hI
  | tail a hs hok hst ih => exact hstep _ a _ (hr.steps hs) ih hok hst

/-- What every step preserves holds at the end of a run from a state where it holds. -/
theorem Steps.induct (I : S → Prop) {s s' : S} (h : M.Steps ok s s') (hI : I s)
    (hstep : ∀ s a s', I s → ok s a → M.step s a = some s' → I s') : I s' := by
  induction h with
  | refl => exact hI
  | tail a _ hok hst ih => exact hstep _ a _ ih hok hst

/-- The invariant rule. The step may use that the state before it is reachable, and so every invariant proved before. -/
theorem Reach.invariant {I : S → Prop} {s : S} (h : M.Reach ok s) (hinit : ∀ s, M.init s → I s)
    (hstep : ∀ s a s', M.Reach ok s → I s → ok s a → M.step s a = some s' → I s') : I s := by
  obtain ⟨s₀, h0, hs⟩ := h
  exact hs.preserves I (.init h0) (hinit s₀ h0) hstep

/-- Take the steps of a list of labels, one after the other. -/
def run (M : Lts S A) : S → List A → Option S
  | s, [] => some s
  | s, a :: as => (M.step s a).bind (fun s' => M.run s' as)

/-- A list of labels that runs through is a run under a condition that all of them meet in every state. -/
theorem steps_of_run_ok {as : List A} (hok : ∀ a ∈ as, ∀ s, ok s a) : ∀ {s s' : S}, M.run s as = some s' → M.Steps ok s s' := by
  induction as with
  | nil =>
    intro s s' h
    cases h
    exact .refl
  | cons a as ih =>
    intro s s' h
    simp only [run, Option.bind_eq_some_iff] at h
    obtain ⟨s₁, h1, h2⟩ := h
    exact (Steps.single a (hok a List.mem_cons_self s) h1).trans (ih (fun b hb => hok b (List.mem_cons_of_mem a hb)) h2)

/-- A list of labels that runs through to a state that passes a test is a run to such a state. -/
theorem steps_of_any_ok {as : List A} (hok : ∀ a ∈ as, ∀ s, ok s a) {s : S} {p : S → Bool} (h : (M.run s as).any p = true) :
    ∃ s', M.Steps ok s s' ∧ p s' = true := by
  cases hr : M.run s as with
  | none =>
    rw [hr] at h
    cases h
  | some s' =>
    rw [hr] at h
    exact ⟨s', steps_of_run_ok hok hr, h⟩

/-- The same under no condition. -/
theorem steps_of_any {as : List A} {s : S} {p : S → Bool} (h : (M.run s as).any p = true) :
    ∃ s', M.Steps Free s s' ∧ p s' = true :=
  steps_of_any_ok (fun _ _ _ => trivial) h

/-- The system with the steps that pass a test. -/
def when (M : Lts S A) (test : S → A → Bool) : Lts S A where
  init := M.init
  step s a := if test s a then M.step s a else none

/-- A list of labels that runs through with every step passing the test, to a state that passes another, is a run to such a state under
the condition that the steps pass the test. -/
theorem steps_of_when {test : S → A → Bool} {as : List A} {s : S} {p : S → Bool} (h : ((M.when test).run s as).any p = true) :
    ∃ s', M.Steps (fun s a => test s a = true) s s' ∧ p s' = true := by
  obtain ⟨s', hs, hp⟩ := steps_of_any h
  refine ⟨s', ?_, hp⟩
  clear hp
  induction hs with
  | refl => exact .refl
  | tail a _ _ hst ih =>
    simp only [when] at hst
    split at hst
    · exact .tail a ih ‹_› hst
    · cases hst

/-! ## Two systems, and two runs -/

/-- The simulation rule: when a second system can follow every step, each reached state of the first has one of the second that is
related to it. -/
theorem Reach.simulate {T : Type u} {B : Type v} {N : Lts T B} {okN : T → B → Prop} {R : S → T → Prop} {s : S} (h : M.Reach ok s)
    (hinit : ∀ s, M.init s → ∃ t, N.init t ∧ R s t)
    (hstep : ∀ s a s' t, M.Reach ok s → N.Reach okN t → R s t → ok s a → M.step s a = some s' →
      ∃ t', N.Steps okN t t' ∧ R s' t') : ∃ t, N.Reach okN t ∧ R s t := by
  refine h.invariant (I := fun s => ∃ t, N.Reach okN t ∧ R s t) ?_ ?_
  · intro s h0
    obtain ⟨t, ht, hR⟩ := hinit s h0
    exact ⟨t, .init ht, hR⟩
  · rintro s a s' hr ⟨t, ht, hR⟩ hok hs
    obtain ⟨t', hsteps, hR'⟩ := hstep s a s' t hr ht hR hok hs
    exact ⟨t', ht.steps hsteps, hR'⟩

/-- The rule for two runs, of one system or of two: when the two steps of every label are both possible or both not, and keep the
states related, the runs of a list of labels end in related states, or neither runs through. -/
theorem run_rel {T : Type w} {A' : Type x} {B : Type y} {N : Lts T A'} {f : B → A} {g : B → A'} {R : S → T → Prop} {bs : List B}
    (hstep : ∀ b ∈ bs, ∀ s t, R s t → Option.Rel R (M.step s (f b)) (N.step t (g b))) :
    ∀ {s : S} {t : T}, R s t → Option.Rel R (M.run s (bs.map f)) (N.run t (bs.map g)) := by
  induction bs with
  | nil =>
    intro s t h
    exact .some h
  | cons b bs ih =>
    intro s t h
    have htail := fun b' hb' => hstep b' (List.mem_cons_of_mem _ hb')
    have hhead := hstep b List.mem_cons_self s t h
    simp only [List.map_cons, run]
    generalize M.step s (f b) = x at hhead
    generalize N.step t (g b) = y at hhead
    cases hhead with
    | none => exact .none
    | some h' => exact ih htail h'

/-! ## Runs with their past -/

/-- The system with its past: the steps taken so far, the last first, each with the state before it. -/
def withPast (M : Lts S A) : Lts (S × List (S × A)) A where
  init p := M.init p.1 ∧ p.2 = []
  step p a := (M.step p.1 a).map (fun s' => (s', (p.1, a) :: p.2))

/-- One more step of the system is one more step with its past. -/
theorem Steps.tail_past {ok : S × List (S × A) → A → Prop} {p : S × List (S × A)} {s s' : S} {past : List (S × A)} (a : A)
    (h : M.withPast.Steps ok p (s, past)) (hok : ok (s, past) a) (hs : M.step s a = some s') :
    M.withPast.Steps ok p (s', (s, a) :: past) := by
  refine .tail a h hok ?_
  simp [withPast, hs]

/-- A condition on the steps that does not look at the past. -/
def onSteps (ok : S → A → Prop) : S × List (S × A) → A → Prop := fun p a => ok p.1 a

/-- The invariant rule for a property of the state and of the past. -/
theorem Reach.invariant_past {I : S → List (S × A) → Prop} {s : S} {past : List (S × A)}
    (h : M.withPast.Reach (onSteps ok) (s, past)) (hinit : ∀ s, M.init s → I s [])
    (hstep : ∀ s past a s', M.withPast.Reach (onSteps ok) (s, past) → I s past → ok s a → M.step s a = some s' →
      I s' ((s, a) :: past)) : I s past := by
  refine Reach.invariant (I := fun p => I p.1 p.2) h ?_ ?_
  · rintro ⟨s, past⟩ ⟨h0, he⟩
    dsimp only at h0 he
    exact he ▸ hinit s h0
  · rintro ⟨s, past⟩ a p' hr hI hok hs
    obtain ⟨s', hs', rfl⟩ := Option.map_eq_some_iff.1 hs
    exact hstep s past a s' hr hI hok hs'

/-- The invariant rule for a run that begins in a reached state, with nothing of the past before it. -/
theorem Steps.invariant_past {I : S → List (S × A) → Prop} {s₀ s : S} {past : List (S × A)} (hr : M.Reach Free s₀)
    (h : M.withPast.Steps (onSteps ok) (s₀, []) (s, past)) (h0 : I s₀ [])
    (hstep : ∀ s past a s', M.Reach Free s → I s past → ok s a → M.step s a = some s' → I s' ((s, a) :: past)) : I s past := by
  refine (Steps.induct (fun p => M.Reach Free p.1 ∧ I p.1 p.2) h ⟨hr, h0⟩ ?_).2
  rintro ⟨s, past⟩ a p' ⟨hr, hI⟩ hok hs
  obtain ⟨s', hs', rfl⟩ := Option.map_eq_some_iff.1 hs
  exact ⟨hr.step a trivial hs', hstep s past a s' hr hI hok hs'⟩

/-- A state reached with its past is reached. -/
theorem Reach.of_past {s : S} {past : List (S × A)} (h : M.withPast.Reach (onSteps ok) (s, past)) : M.Reach ok s :=
  h.invariant_past (I := fun s _ => M.Reach ok s) (fun _ h0 => .init h0) (fun _ _ a _ _ hr hok hs => hr.step a hok hs)

/-- The steps of the past were steps of the run: each was taken in a state that the run reached, and the run led on from it. -/
theorem Reach.past_step {s : S} {past : List (S × A)} (h : M.withPast.Reach (onSteps ok) (s, past)) :
    ∀ step ∈ past, M.Reach ok step.1 ∧ ok step.1 step.2 ∧ M.Steps ok step.1 s := by
  refine h.invariant_past (I := fun s past => ∀ step ∈ past, M.Reach ok step.1 ∧ ok step.1 step.2 ∧ M.Steps ok step.1 s) ?_ ?_
  · intro s _ step hstep
    cases hstep
  intro s past a s' hr hI hok hs step hstep
  rcases List.mem_cons.1 hstep with rfl | hstep
  · exact ⟨hr.of_past, hok, .single a hok hs⟩
  · obtain ⟨h1, h2, h3⟩ := hI step hstep
    exact ⟨h1, h2, .tail a h3 hok hs⟩

/-- A state that is reached is reached with some past. -/
theorem Reach.with_past {s : S} (h : M.Reach ok s) : ∃ past, M.withPast.Reach (onSteps ok) (s, past) := by
  refine Reach.invariant (I := fun s => ∃ past, M.withPast.Reach (onSteps ok) (s, past)) h ?_ ?_
  · intro s h0
    exact ⟨[], .init ⟨h0, rfl⟩⟩
  rintro s a s' - ⟨past, hp⟩ hok hs
  refine ⟨(s, a) :: past, hp.step a hok ?_⟩
  simp [withPast, hs]

/-! ## Infinite runs -/

/-- An infinite run: its states, and the steps between them. -/
structure Run (M : Lts S A) (state : Nat → S) (act : Nat → A) : Prop where
  init : M.init (state 0)
  step : ∀ n, M.step (state n) (act n) = some (state (n + 1))

theorem Run.reach {state : Nat → S} {act : Nat → A} (h : M.Run state act) (n : Nat) : M.Reach Free (state n) := by
  induction n with
  | zero => exact .init h.init
  | succ n ih => exact ih.step (act n) trivial (h.step n)

/-- What every step of a reachable state keeps holds from the moment it holds. -/
theorem Run.stable {state : Nat → S} {act : Nat → A} (h : M.Run state act) {P : S → Prop}
    (hstep : ∀ s a s', M.Reach Free s → P s → M.step s a = some s' → P s') {n m : Nat} (hnm : n ≤ m) (hP : P (state n)) :
    P (state m) := by
  induction hnm with
  | refl => exact hP
  | step _ ih => exact hstep _ _ _ (h.reach _) ih (h.step _)

/-- The progress rule: a goal is reached when a bounded rank is greater at some later time as long as the goal is not. -/
theorem eventually_of_rank {P : Nat → Prop} {rank : Nat → Nat} {bound : Nat} (hbound : ∀ n, rank n ≤ bound)
    (hprogress : ∀ n, ¬ P n → ∃ m, n ≤ m ∧ rank n < rank m) (n : Nat) : ∃ m, n ≤ m ∧ P m := by
  induction hd : bound - rank n using Nat.strongRecOn generalizing n with
  | ind d ih =>
    by_cases hP : P n
    · exact ⟨n, Nat.le_refl n, hP⟩
    obtain ⟨m, hnm, hlt⟩ := hprogress n hP
    have hm := hbound m
    obtain ⟨m', hmm', hP'⟩ := ih (bound - rank m) (by omega) m rfl
    exact ⟨m', Nat.le_trans hnm hmm', hP'⟩

end Lts
