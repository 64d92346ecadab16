import Mathlib.Data.List.Nodup

/-!
# Tables with a primary key

A table is a list of rows no two of which have the same key, with the statements a relational store runs on it: insert,
refused when the key is taken; update of the rows that meet a predicate, which may not change a key; delete of the rows that
meet one. Every statement keeps the key unique by construction.
-/

/-- Rows, no two with the same key. -/
structure Table {α κ : Type*} (key : α → κ) where
  rows : List α
  nodup : (rows.map key).Nodup

namespace Table

variable {α κ : Type*} {key : α → κ}

instance : Membership α (Table key) := ⟨fun t r => r ∈ t.rows⟩

theorem mem_def {t : Table key} {r : α} : r ∈ t ↔ r ∈ t.rows := Iff.rfl

/-- Two tables with the same rows are the same table. -/
theorem ext {t t' : Table key} (h : t.rows = t'.rows) : t = t' := by
  cases t
  cases t'
  cases h
  rfl

/-- The table without rows. -/
def empty : Table key := ⟨[], List.nodup_nil⟩

@[simp] theorem not_mem_empty (r : α) : r ∉ (empty : Table key) := List.not_mem_nil

/-- Two rows of a table with the same key are the same row. -/
theorem eq_of_key_eq (t : Table key) {r r' : α} (h : r ∈ t) (h' : r' ∈ t) (hk : key r = key r') : r = r' :=
  List.inj_on_of_nodup_map t.nodup h h' hk

/-- The rows that meet a predicate, in the order they were inserted. -/
def select (t : Table key) (p : α → Bool) : List α := t.rows.filter p

/-- Replace every row that meets the predicate by its image, which has the same key. -/
def update (t : Table key) (p : α → Bool) (f : α → α) (hf : ∀ r, key (f r) = key r) : Table key :=
  ⟨t.rows.map (fun r => if p r then f r else r), by
    have e : (t.rows.map (fun r => if p r then f r else r)).map key = t.rows.map key := by
      rw [List.map_map]
      refine List.map_congr_left (fun r _ => ?_)
      by_cases h : p r <;> simp [h, hf]
    rw [e]
    exact t.nodup⟩

/-- Remove every row that meets the predicate. -/
def delete (t : Table key) (p : α → Bool) : Table key :=
  ⟨t.rows.filter (fun r => !p r), t.nodup.sublist (List.filter_sublist.map key)⟩

@[simp] theorem mem_select {t : Table key} {p : α → Bool} {r : α} : r ∈ t.select p ↔ r ∈ t ∧ p r = true :=
  List.mem_filter

/-- The rows selected have different keys. -/
theorem nodup_keys (t : Table key) (p : α → Bool) : ((t.select p).map key).Nodup := t.nodup.sublist (List.filter_sublist.map key)

/-- So they are different rows. -/
theorem nodup_select (t : Table key) (p : α → Bool) : (t.select p).Nodup := (t.nodup_keys p).of_map key

@[simp] theorem mem_update {t : Table key} {p : α → Bool} {f : α → α} {hf : ∀ r, key (f r) = key r} {x : α} :
    x ∈ t.update p f hf ↔ ∃ r ∈ t, (if p r then f r else r) = x :=
  List.mem_map

@[simp] theorem mem_delete {t : Table key} {p : α → Bool} {x : α} : x ∈ t.delete p ↔ x ∈ t ∧ p x = false := by
  simp [mem_def, delete]

/-! ## What a statement leaves of a selection -/

/-- A narrower selection is one of the wider. -/
theorem select_narrow {t : Table key} {p q : α → Bool} (h : ∀ r, p r = true → q r = true) :
    t.select p = (t.select q).filter p := by
  unfold select
  rw [List.filter_filter]
  refine List.filter_congr (fun r _ => ?_)
  by_cases hp : p r = true
  · simp [hp, h r hp]
  · simp [hp]

/-- An update that moves no row into a selection, nor out of it, acts on it row by row. -/
theorem select_update {t : Table key} {p q : α → Bool} {f : α → α} (hf : ∀ r, key (f r) = key r) (hq : ∀ r, q (f r) = q r) :
    (t.update p f hf).select q = (t.select q).map (fun r => if p r then f r else r) := by
  unfold select update
  rw [List.filter_map]
  refine congrArg _ (List.filter_congr (fun r _ => ?_))
  by_cases hp : p r = true <;> simp [hp, hq]

/-- An update of rows outside a selection leaves it alone. -/
theorem select_update_of_not {t : Table key} {p q : α → Bool} {f : α → α} (hf : ∀ r, key (f r) = key r) (hq : ∀ r, q (f r) = q r)
    (h : ∀ r ∈ t, p r = true → q r = false) : (t.update p f hf).select q = t.select q := by
  rw [select_update hf hq]
  refine (List.map_congr_left (fun r hr => ?_)).trans (List.map_id _)
  obtain ⟨hmem, hqr⟩ := mem_select.1 hr
  have hp : p r = false := by
    by_contra hp
    simp [h r hmem (by simpa using hp)] at hqr
  simp [hp]

/-- An update that keeps the rows it meets changes nothing. -/
theorem update_of_eq {t : Table key} {p : α → Bool} {f : α → α} (hf : ∀ r, key (f r) = key r)
    (h : ∀ r ∈ t, p r = true → f r = r) : t.update p f hf = t := by
  refine ext ((List.map_congr_left (fun r hr => ?_)).trans (List.map_id _))
  split
  · rename_i hp
    exact h r hr hp
  · rfl

/-- A delete that meets no row changes nothing. -/
theorem delete_of_not {t : Table key} {p : α → Bool} (h : ∀ r ∈ t, p r = false) : t.delete p = t :=
  ext (List.filter_eq_self.2 (fun r hr => by rw [h r hr]; rfl))

/-- A delete acts on a selection as on the table. -/
theorem select_delete {t : Table key} {p q : α → Bool} : (t.delete p).select q = (t.select q).filter (fun r => !p r) := by
  unfold select delete
  rw [List.filter_filter, List.filter_filter]
  exact List.filter_congr (fun r _ => Bool.and_comm _ _)

/-- A selection whose rows all have the key of one of them is led by that one. -/
theorem head?_select {t : Table key} {p : α → Bool} {r : α} (h : r ∈ t) (hp : p r = true)
    (hk : ∀ x ∈ t, p x = true → key x = key r) : (t.select p).head? = some r := by
  have hmem : r ∈ t.select p := mem_select.2 ⟨h, hp⟩
  have hall : ∀ x ∈ t.select p, x = r := by
    intro x hx
    obtain ⟨hx, hpx⟩ := mem_select.1 hx
    exact t.eq_of_key_eq hx h (hk x hx hpx)
  generalize t.select p = l at hmem hall
  cases l with
  | nil => cases hmem
  | cons x l => rw [List.head?_cons, hall x List.mem_cons_self]

/-! ## Tables that select the same rows -/

/-- Then narrower selections are of the same rows. -/
theorem select_perm {t t' : Table key} {p q : α → Bool} (h : ∀ r, p r = true → q r = true) (hq : (t.select q).Perm (t'.select q)) :
    (t.select p).Perm (t'.select p) := by
  rw [select_narrow h, select_narrow h]
  exact hq.filter p

/-- Where the rows all have one key they are one row. -/
theorem head?_perm {t t' : Table key} {p : α → Bool} {k : κ} (hk : ∀ r, p r = true → key r = k)
    (h : (t.select p).Perm (t'.select p)) : (t.select p).head? = (t'.select p).head? := by
  cases hfirst : (t.select p).head? with
  | none =>
    rw [List.head?_eq_none_iff] at hfirst
    rw [hfirst] at h
    rw [List.nil_perm.mp h, List.head?_nil]
  | some r =>
    obtain ⟨hr, hp⟩ := mem_select.1 (h.mem_iff.mp (List.mem_of_mem_head? hfirst))
    exact (head?_select hr hp (fun x _ hx => (hk x hx).trans (hk r hp).symm)).symm

section Key

variable [DecidableEq κ]

/-- The row with a key. -/
def find? (t : Table key) (k : κ) : Option α := t.rows.find? (fun r => decide (key r = k))

/-- Insert a row, unless its key is taken. -/
def insert (t : Table key) (r : α) : Option (Table key) :=
  if h : key r ∈ t.rows.map key then none
  else some ⟨t.rows ++ [r], by
    rw [List.map_append, List.nodup_append]
    refine ⟨t.nodup, by simp, ?_⟩
    intro k hk k' hk' he
    rw [List.map_singleton, List.mem_singleton] at hk'
    exact h (hk' ▸ he ▸ hk)⟩

theorem find?_eq_some_iff {t : Table key} {k : κ} {r : α} : t.find? k = some r ↔ r ∈ t ∧ key r = k := by
  constructor
  · intro h
    exact ⟨List.mem_of_find?_eq_some h, by simpa using List.find?_some h⟩
  · rintro ⟨hr, hk⟩
    cases h : t.find? k with
    | none =>
      have := List.find?_eq_none.1 h r hr
      simp [hk] at this
    | some r' =>
      have hk' : key r' = k := by simpa using List.find?_some h
      rw [t.eq_of_key_eq (List.mem_of_find?_eq_some h) hr (hk'.trans hk.symm)]

/-- Where the row with a key does not pass a test, or there is none, no row with the key passes it. -/
theorem eq_false_of_filter_find? {t : Table key} {p q : α → Bool} {k : κ} (hq : ∀ r ∈ t, q r = true ↔ key r = k ∧ p r = true)
    (h : (t.find? k).filter p = none) : ∀ r ∈ t, q r = false := by
  intro r hr
  rw [Bool.eq_false_iff]
  intro hqr
  obtain ⟨hk, hp⟩ := (hq r hr).1 hqr
  rw [find?_eq_some_iff.2 ⟨hr, hk⟩, Option.filter_some_pos hp] at h
  cases h

/-- Where the row with a key passes a test, it is the one with the key. -/
theorem eq_true_iff_of_filter_find? {t : Table key} {p q : α → Bool} {k : κ} {r : α}
    (hq : ∀ r ∈ t, q r = true ↔ key r = k ∧ p r = true) (h : (t.find? k).filter p = some r) :
    ∀ x ∈ t, q x = true ↔ key x = k := by
  obtain ⟨hfind, hp⟩ := Option.filter_eq_some_iff.1 h
  obtain ⟨hr, hk⟩ := find?_eq_some_iff.1 hfind
  intro x hx
  rw [hq x hx]
  exact ⟨And.left, fun hxk => ⟨hxk, t.eq_of_key_eq hr hx (hk.trans hxk.symm) ▸ hp⟩⟩

/-- A selection of the row with a key, where that passes a test. -/
theorem head?_select_key {t : Table key} {p q : α → Bool} {k : κ} (hq : ∀ r ∈ t, q r = true ↔ key r = k ∧ p r = true) :
    (t.select q).head? = (t.find? k).filter p := by
  cases h : (t.find? k).filter p with
  | none =>
    rw [List.head?_eq_none_iff, List.eq_nil_iff_forall_not_mem]
    intro r hr
    obtain ⟨hr, hqr⟩ := mem_select.1 hr
    rw [eq_false_of_filter_find? hq h r hr] at hqr
    cases hqr
  | some r =>
    obtain ⟨hr, hk⟩ := find?_eq_some_iff.1 (Option.filter_eq_some_iff.1 h).1
    have hqk := eq_true_iff_of_filter_find? hq h
    exact head?_select hr ((hqk r hr).2 hk) (fun x hx hqx => ((hqk x hx).1 hqx).trans hk.symm)

theorem insert_eq_some {t t' : Table key} {r : α} (h : t.insert r = some t') : ∀ x, x ∈ t' ↔ x ∈ t ∨ x = r := by
  unfold insert at h
  split at h
  · cases h
  · cases h
    intro x
    simp [mem_def]

/-- An inserted row comes last. -/
theorem rows_insert {t t' : Table key} {r : α} (h : t.insert r = some t') : t'.rows = t.rows ++ [r] := by
  unfold insert at h
  split at h
  · cases h
  · cases h
    rfl

/-- An insert adds its row to the selections it meets. -/
theorem select_insert {t t' : Table key} {r : α} (h : t.insert r = some t') (q : α → Bool) :
    t'.select q = t.select q ++ [r].filter q := by
  unfold select
  rw [rows_insert h, List.filter_append]

/-- An insert under a key that is not taken takes effect. -/
theorem insert_of_key_ne {t : Table key} {r : α} (h : ∀ x ∈ t, key x ≠ key r) : ∃ t', t.insert r = some t' := by
  cases hins : t.insert r with
  | some t' => exact ⟨t', rfl⟩
  | none =>
    unfold insert at hins
    split at hins
    · rename_i hmem
      obtain ⟨x, hx, he⟩ := List.mem_map.1 hmem
      exact absurd he (h x hx)
    · cases hins

theorem insert_key_ne {t t' : Table key} {r : α} (h : t.insert r = some t') : ∀ x ∈ t, key x ≠ key r := by
  unfold insert at h
  split at h
  · cases h
  · rename_i hno
    intro x hx he
    exact hno (he ▸ List.mem_map_of_mem hx)

theorem insert_eq_none {t : Table key} {r : α} (h : t.insert r = none) : ∃ x ∈ t, key x = key r := by
  unfold insert at h
  split at h
  · rename_i hmem
    exact List.mem_map.1 hmem
  · cases h

end Key

end Table
