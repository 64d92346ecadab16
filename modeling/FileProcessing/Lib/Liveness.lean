import FileProcessing.Lib.Lts
import Mathlib.Order.Filter.AtTopBot.Basic
import Mathlib.Order.Filter.Finite
import Mathlib.Order.OrderIsoNat

/-!
# What an infinite run comes to

`∀ᶠ n in atTop` reads "from some time on", `∃ᶠ n in atTop` "again and again". A run is fair to a kind of step when that step happens
again and again once it stays possible. The rule that proves something of every fair run is `WeaklyFair.not_possible`: a step that
lowers a rank no other step raises does not stay possible. `Run.of_list` makes a run of a finite one.
-/

open Filter

universe u v

namespace Lts

/-- What stays possible from some time on happens again and again. -/
def WeaklyFair (possible happens : Nat → Prop) : Prop := (∀ᶠ n in atTop, possible n) → ∃ᶠ n in atTop, happens n

/-- A quantity that from some time on never grows, in a well-founded order, is constant from some time on. -/
theorem eventually_constant {α : Type u} [PartialOrder α] [WellFoundedLT α] {rank : Nat → α}
    (hle : ∀ᶠ n in atTop, rank (n + 1) ≤ rank n) : ∃ x, ∀ᶠ n in atTop, rank n = x := by
  obtain ⟨N, hN⟩ := eventually_atTop.1 hle
  have hanti : Antitone (fun n => rank (N + n)) := antitone_nat_of_succ_le (fun n => hN (N + n) (Nat.le_add_right N n))
  obtain ⟨m, hm⟩ := WellFoundedLT.antitone_chain_condition hanti
  refine ⟨rank (N + m), eventually_atTop.2 ⟨N + m, fun n hn => ?_⟩⟩
  have heq := hm (n - N) (by omega)
  rw [heq, Nat.add_sub_cancel' (by omega)]

/-- A step that lowers a rank, where no step raises it, does not stay possible in a run that is fair to it. -/
theorem WeaklyFair.not_possible {possible happens : Nat → Prop} (h : WeaklyFair possible happens) {α : Type u} [PartialOrder α]
    [WellFoundedLT α] (rank : Nat → α) (hle : ∀ᶠ n in atTop, rank (n + 1) ≤ rank n)
    (hlt : ∀ᶠ n in atTop, happens n → rank (n + 1) < rank n) : ¬ ∀ᶠ n in atTop, possible n := by
  intro hpossible
  obtain ⟨x, hx⟩ := eventually_constant hle
  have hx' : ∀ᶠ n in atTop, rank (n + 1) = x := (tendsto_add_atTop_nat 1).eventually hx
  obtain ⟨n, hn, heq, heq', hstep⟩ := ((h hpossible).and_eventually (hx.and (hx'.and hlt))).exists
  exact absurd (hstep hn) (by rw [heq, heq']; exact lt_irrefl x)

/-- What holds at a time and is kept by every step holds from some time on. -/
theorem eventually_of_kept {P : Nat → Prop} {n : Nat} (hn : P n) (hstep : ∀ m, n ≤ m → P m → P (m + 1)) : ∀ᶠ m in atTop, P m :=
  eventually_atTop.2 ⟨n, fun _ hm => Nat.le_induction hn hstep _ hm⟩

/-- What does not hold from some time on fails at some time after any other. -/
theorem exists_not_of_not_eventually {possible : Nat → Prop} (h : ¬ ∀ᶠ n in atTop, possible n) (n : Nat) :
    ∃ m, n ≤ m ∧ ¬ possible m := by
  obtain ⟨m, hm, hnm⟩ := ((not_eventually.1 h).and_eventually (eventually_ge_atTop n)).exists
  exact ⟨m, hnm, hm⟩

/-- Where the places of a class are below a bound from some time on, and each place leaves the class for good, the class dies out. -/
theorem eventually_none {P : Nat → Nat → Prop} (bound : Nat) (hbound : ∀ᶠ n in atTop, ∀ i, P i n → i < bound)
    (hleaves : ∀ i, ∀ᶠ n in atTop, ¬ P i n) : ∀ᶠ n in atTop, ∀ i, ¬ P i n := by
  have hall : ∀ᶠ n in atTop, ∀ i ∈ Finset.range bound, ¬ P i n :=
    (Filter.eventually_all_finset (Finset.range bound)).2 (fun i _ => hleaves i)
  refine (hbound.and hall).mono ?_
  rintro n ⟨hb, ha⟩ i hP
  exact ha i (Finset.mem_range.2 (hb i hP)) hP

variable {S : Type u} {A : Type v} {M : Lts S A} {ok : S → A → Prop} {state : Nat → S} {act : Nat → A}

/-- The steps of a run lead from each of its states to each later one. -/
theorem Run.steps (h : M.Run state act) {n m : Nat} (hnm : n ≤ m) : M.Steps Free (state n) (state m) := by
  induction hnm with
  | refl => exact .refl
  | step _ ih => exact .tail (act _) ih trivial (h.step _)

/-- A run all of whose steps meet a condition reaches its states under the condition. -/
theorem Run.reach_of (h : M.Run state act) (hok : ∀ n, ok (state n) (act n)) (n : Nat) : M.Reach ok (state n) := by
  induction n with
  | zero => exact .init h.init
  | succ n ih => exact ih.step (act n) (hok n) (h.step n)

/-- What every step of a run keeps holds from some time on, once it holds. -/
theorem Run.eventually (h : M.Run state act) {P : S → Prop} (hstep : ∀ s a s', M.Reach Free s → P s → M.step s a = some s' → P s')
    {n : Nat} (hn : P (state n)) : ∀ᶠ m in atTop, P (state m) :=
  eventually_of_kept (P := fun m => P (state m)) hn (fun m _ hm => hstep _ _ _ (h.reach m) hm (h.step m))

/-! ## The run that a finite one leads to -/

/-- The state after the first labels of a list, and the last state from then on. -/
def stateAt (M : Lts S A) (s₀ s : S) (as : List A) (n : Nat) : S := if as.length ≤ n then s else (M.run s₀ (as.take n)).getD s

/-- The label at a place of the list, and the idle label from its end on. -/
def labelAt (idle : A) (as : List A) (n : Nat) : A := as[n]?.getD idle

theorem labelAt_mem (idle : A) (as : List A) (n : Nat) : labelAt idle as n ∈ as ∨ labelAt idle as n = idle := by
  unfold labelAt
  cases h : as[n]? with
  | none => exact Or.inr rfl
  | some a => exact Or.inl (List.mem_of_getElem? h)

theorem run_append {as bs : List A} : ∀ {s : S}, M.run s (as ++ bs) = (M.run s as).bind (fun s' => M.run s' bs) := by
  induction as with
  | nil => exact fun {s} => rfl
  | cons a as ih =>
    intro s
    simp only [List.cons_append, run]
    cases M.step s a with
    | none => rfl
    | some s' => exact ih

/-- The states along a list of labels that runs through. -/
theorem run_take {s₀ s : S} {as : List A} (h : M.run s₀ as = some s) (n : Nat) :
    M.run s₀ (as.take n) = some (M.stateAt s₀ s as n) := by
  unfold stateAt
  by_cases hn : as.length ≤ n
  · rw [if_pos hn, List.take_of_length_le hn, h]
  · rw [if_neg hn]
    cases hr : M.run s₀ (as.take n) with
    | some s' => rfl
    | none =>
      rw [← List.take_append_drop n as, run_append, hr] at h
      cases h

/-- A list of labels that runs through from an initial state, then a run from where it ends. -/
theorem Run.append {s₀ s : S} {as : List A} (h0 : M.init s₀) (h : M.run s₀ as = some s) (tail : Nat → S) (next : Nat → A)
    (htail : tail 0 = s) (hnext : ∀ n, M.step (tail n) (next n) = some (tail (n + 1))) :
    M.Run (fun n => if as.length ≤ n then tail (n - as.length) else M.stateAt s₀ s as n)
      (fun n => as[n]?.getD (next (n - as.length))) := by
  constructor
  · have heq : s₀ = M.stateAt s₀ s as 0 := Option.some.inj (run_take h 0)
    by_cases hn : as.length ≤ 0
    · have hzero : as.length = 0 := Nat.le_zero.1 hn
      rw [if_pos hn, hzero, htail]
      rw [stateAt, if_pos hn] at heq
      exact heq ▸ h0
    · rw [if_neg hn]
      exact heq ▸ h0
  · intro n
    by_cases hn : as.length ≤ n
    · rw [if_pos hn, if_pos (Nat.le_succ_of_le hn), List.getElem?_eq_none hn, Option.getD_none, Nat.succ_sub hn]
      exact hnext (n - as.length)
    · have hlt : n < as.length := Nat.lt_of_not_le hn
      have hsucc : (if as.length ≤ n + 1 then tail (n + 1 - as.length) else M.stateAt s₀ s as (n + 1)) = M.stateAt s₀ s as (n + 1) := by
        split
        · rename_i hle
          have heq : as.length = n + 1 := Nat.le_antisymm hle hlt
          rw [stateAt, if_pos hle, heq, Nat.sub_self, htail]
        · rfl
      rw [if_neg hn, hsucc, List.getElem?_eq_getElem hlt, Option.getD_some]
      have hrun := run_take h (n + 1)
      rw [List.take_succ_eq_append_getElem hlt, run_append, run_take h n] at hrun
      simp only [Option.bind_some, run] at hrun
      cases hs : M.step (M.stateAt s₀ s as n) as[n] with
      | none =>
        rw [hs] at hrun
        cases hrun
      | some s' =>
        rw [hs] at hrun
        exact hrun

/-- A list of labels that runs through from an initial state, then an idle label that changes nothing, for ever. -/
theorem Run.of_list {s₀ s : S} {as : List A} {idle : A} (h0 : M.init s₀) (h : M.run s₀ as = some s) (hidle : M.step s idle = some s) :
    M.Run (M.stateAt s₀ s as) (labelAt idle as) := by
  have hrun := Run.append h0 h (fun _ => s) (fun _ => idle) rfl (fun _ => hidle)
  have hstate : (fun n => if as.length ≤ n then s else M.stateAt s₀ s as n) = M.stateAt s₀ s as := by
    funext n
    unfold stateAt
    split <;> rfl
  rwa [hstate] at hrun

/-- A run that has come to rest is fair to whatever is not possible there. -/
theorem weaklyFair_of_rest {s₀ s : S} {as : List A} (possible : S → Prop) {happens : Nat → Prop} (h : ¬ possible s) :
    WeaklyFair (fun n => possible (M.stateAt s₀ s as n)) happens := by
  intro hpossible
  obtain ⟨n, hn, hlen⟩ := (hpossible.and (eventually_ge_atTop as.length)).exists
  rw [stateAt, if_pos hlen] at hn
  exact absurd hn h

end Lts
