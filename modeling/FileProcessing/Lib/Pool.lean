/-!
# Pools of tasks

A pool is a list of tasks, a task's place being its identity. A step replaces the task at one place and spawns new tasks at
the end, so no place is ever reused: `Pool.replace`.
-/

universe u

namespace Pool

variable {T : Type u}

/-- Replace the task at a place and spawn tasks at the end. -/
def replace (l : List T) (i : Nat) (t : T) (spawned : List T) : List T := l.set i t ++ spawned

/-- What stands at a place of the pool after a step: the task that stepped, a task that did not, or one just spawned. -/
theorem getElem?_replace {l : List T} {i : Nat} {t : T} {spawned : List T} {j : Nat} {x : T}
    (h : (replace l i t spawned)[j]? = some x) :
    (j = i ∧ x = t) ∨ (j ≠ i ∧ l[j]? = some x) ∨ (l.length ≤ j ∧ x ∈ spawned) := by
  unfold replace at h
  by_cases hj : j < l.length
  · rw [List.getElem?_append_left (by simpa using hj), List.getElem?_set] at h
    by_cases hi : i = j
    · rw [if_pos hi, if_pos (hi ▸ hj)] at h
      exact Or.inl ⟨hi.symm, (Option.some.inj h).symm⟩
    · rw [if_neg hi] at h
      exact Or.inr (Or.inl ⟨fun e => hi e.symm, h⟩)
  · rw [List.getElem?_append_right (by simpa using hj)] at h
    exact Or.inr (Or.inr ⟨by omega, List.mem_of_getElem? h⟩)

/-- The task that stepped stands at its place. -/
theorem getElem?_replace_self {l : List T} {i : Nat} {t₀ t : T} {spawned : List T} (h : l[i]? = some t₀) :
    (replace l i t spawned)[i]? = some t := by
  have hi : i < l.length := (List.getElem?_eq_some_iff.1 h).1
  unfold replace
  rw [List.getElem?_append_left (by simpa using hi), List.getElem?_set_self hi]

/-- Every other task stands where it stood. -/
theorem getElem?_replace_of_ne {l : List T} {i j : Nat} {t x : T} {spawned : List T} (hne : j ≠ i) (h : l[j]? = some x) :
    (replace l i t spawned)[j]? = some x := by
  have hj : j < l.length := (List.getElem?_eq_some_iff.1 h).1
  unfold replace
  rw [List.getElem?_append_left (by simpa using hj), List.getElem?_set_ne (Ne.symm hne), h]

/-- A step changes a count by what the task that stepped and the spawned ones count. -/
theorem countP_replace (p : T → Bool) {l : List T} {i : Nat} {t₀ : T} (t : T) (spawned : List T) (h : l[i]? = some t₀) :
    (replace l i t spawned).countP p + (if p t₀ then 1 else 0) = l.countP p + (if p t then 1 else 0) + spawned.countP p := by
  obtain ⟨hi, rfl⟩ := List.getElem?_eq_some_iff.1 h
  have hpos : (if p l[i] then 1 else 0) ≤ l.countP p := by
    split
    · rename_i hp
      exact List.countP_pos_iff.2 ⟨l[i], List.getElem_mem hi, hp⟩
    · exact Nat.zero_le _
  unfold replace
  rw [List.countP_append, List.countP_set hi]
  omega

/-- A step keeps a count when it keeps that of the task that stepped and spawns none. -/
theorem countP_replace_of_eq (p : T → Bool) {l : List T} {i : Nat} {t₀ t : T} {spawned : List T} (h : l[i]? = some t₀)
    (ht : p t = p t₀) (hs : ∀ x ∈ spawned, p x = false) : (replace l i t spawned).countP p = l.countP p := by
  have hcount := countP_replace p t spawned h
  have hnone : spawned.countP p = 0 := List.countP_eq_zero.2 (fun x hx => by rw [hs x hx]; exact Bool.false_ne_true)
  rw [ht, hnone] at hcount
  omega

end Pool
