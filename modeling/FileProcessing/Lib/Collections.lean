import FileProcessing.Lib.Table

/-!
# Maps and sets that remember insertion

The `Map` and the `Set` of JavaScript. A map is a table of entries, listed in the order their keys were first set; setting a key
that is there replaces its value in place. A set lists elements no two of which are the same, where being the same is a relation
that need not be reflexive (two objects are not the same even when they look alike).
-/

/-- A map that lists its entries in the order of insertion. -/
abbrev OrderedMap (κ ν : Type*) := Table (Prod.fst : κ × ν → κ)

namespace OrderedMap

variable {κ ν : Type*} [DecidableEq κ] {m : OrderedMap κ ν} {k k' : κ} {v v' : ν}

/-- `map.get(k)`. -/
def get? (m : OrderedMap κ ν) (k : κ) : Option ν := (m.find? k).map Prod.snd

/-- `map.set(k, v)`. -/
def set (m : OrderedMap κ ν) (k : κ) (v : ν) : OrderedMap κ ν :=
  match m.insert (k, v) with
  | some m' => m'
  | none => m.update (fun e => e.1 = k) (fun e => (e.1, v)) (fun _ => rfl)

/-- Set a key to the image of its value, where that passes a test; the new value. -/
def replace (m : OrderedMap κ ν) (k : κ) (p : ν → Bool) (f : ν → ν) : Option ν × OrderedMap κ ν :=
  match get? m k with
  | none => (none, m)
  | some v => if p v then (some (f v), set m k (f v)) else (none, m)

/-- `map.delete(k)`. -/
def erase (m : OrderedMap κ ν) (k : κ) : OrderedMap κ ν := m.delete (fun e => e.1 = k)

theorem get?_eq_some_iff : get? m k = some v ↔ (k, v) ∈ m := by
  unfold get?
  rw [Option.map_eq_some_iff]
  constructor
  · rintro ⟨⟨k₀, v₀⟩, hf, rfl⟩
    obtain ⟨hmem, rfl⟩ := Table.find?_eq_some_iff.1 hf
    exact hmem
  · intro h
    exact ⟨(k, v), Table.find?_eq_some_iff.2 ⟨h, rfl⟩, rfl⟩

@[simp] theorem mem_erase : (k', v') ∈ erase m k ↔ (k', v') ∈ m ∧ k' ≠ k := by
  simp [erase]

/-- The entries after a key is set. -/
@[simp] theorem mem_set : (k', v') ∈ set m k v ↔ (k' = k ∧ v' = v) ∨ (k' ≠ k ∧ (k', v') ∈ m) := by
  unfold set
  split
  · rename_i m' h
    rw [Table.insert_eq_some h, Prod.mk.injEq]
    constructor
    · rintro (hmem | hnew)
      · exact Or.inr ⟨Table.insert_key_ne h _ hmem, hmem⟩
      · exact Or.inl hnew
    · rintro (hnew | ⟨-, hmem⟩)
      · exact Or.inr hnew
      · exact Or.inl hmem
  · rename_i h
    obtain ⟨⟨k₀, v₀⟩, hmem₀, hk₀⟩ := Table.insert_eq_none h
    obtain rfl : k₀ = k := hk₀
    rw [Table.mem_update]
    constructor
    · rintro ⟨⟨k₁, v₁⟩, hmem, he⟩
      by_cases hk : k₁ = k₀
      · simp only [hk, decide_true, if_true, Prod.mk.injEq] at he
        exact Or.inl ⟨he.1.symm, he.2.symm⟩
      · simp only [hk, decide_false, Bool.false_eq_true, if_false, Prod.mk.injEq] at he
        obtain ⟨rfl, rfl⟩ := he
        exact Or.inr ⟨hk, hmem⟩
    · rintro (⟨rfl, rfl⟩ | ⟨hk, hmem⟩)
      · exact ⟨(k', v₀), hmem₀, by simp⟩
      · exact ⟨(k', v'), hmem, by simp [hk]⟩

/-- What a key is bound to after a key is set. -/
theorem get?_set : get? (set m k v) k' = if k' = k then some v else get? m k' := by
  refine Option.ext (fun x => ?_)
  rw [get?_eq_some_iff, mem_set]
  by_cases hk : k' = k
  · rw [if_pos hk, Option.some.injEq]
    exact ⟨fun h => h.elim (fun h => h.2.symm) (fun h => absurd hk h.1), fun h => Or.inl ⟨hk, h.symm⟩⟩
  · rw [if_neg hk, get?_eq_some_iff]
    exact ⟨fun h => h.elim (fun h => absurd h.1 hk) And.right, fun h => Or.inr ⟨hk, h⟩⟩

/-- What a key is bound to after a key is deleted. -/
theorem get?_erase : get? (erase m k) k' = if k' = k then none else get? m k' := by
  refine Option.ext (fun x => ?_)
  rw [get?_eq_some_iff, mem_erase]
  by_cases hk : k' = k
  · rw [if_pos hk]
    exact ⟨fun h => absurd hk h.2, fun h => nomatch h⟩
  · rw [if_neg hk, get?_eq_some_iff]
    exact ⟨And.left, fun h => ⟨h, hk⟩⟩

theorem replace_eq (p : ν → Bool) (f : ν → ν) :
    replace m k p f = match (get? m k).filter p with
      | none => (none, m)
      | some v => (some (f v), set m k (f v)) := by
  unfold replace
  cases get? m k with
  | none => rfl
  | some v =>
    by_cases hp : p v = true
    · rw [Option.filter_some_pos hp]
      exact if_pos hp
    · rw [Option.filter_some_neg (Bool.eq_false_iff.mpr hp)]
      exact if_neg hp

/-- A key that is there is set in place. -/
theorem rows_set (h : get? m k = some v') : (set m k v).rows = m.rows.map (fun e => if e.1 = k then (e.1, v) else e) := by
  unfold set
  cases hins : m.insert (k, v) with
  | some m' => exact absurd rfl (Table.insert_key_ne hins (k, v') (get?_eq_some_iff.1 h))
  | none => simp [Table.update]

/-- Setting a key to the value it is bound to changes nothing. -/
theorem set_of_get? (h : get? m k = some v) : set m k v = m := by
  have hrows : (set m k v).rows = m.rows := by
    rw [rows_set h]
    refine (List.map_congr_left (fun e he => ?_)).trans (List.map_id _)
    split
    · rename_i hk
      exact m.eq_of_key_eq (get?_eq_some_iff.1 (hk ▸ h)) he rfl
    · rfl
  exact Table.ext hrows

/-! ### A map of rows by their key -/

section OfTable

variable {α : Type*} {key : α → κ} {t t' : Table key} {r : α}

/-- The rows of a table, each under its key. -/
def ofTable (t : Table key) : OrderedMap κ α :=
  ⟨t.rows.map (fun r => (key r, r)), by
    rw [List.map_map]
    exact t.nodup⟩

/-- `map.values()`. -/
def values {ν : Type*} (m : OrderedMap κ ν) : List ν := m.rows.map Prod.snd

omit [DecidableEq κ] in
theorem rows_ofTable (t : Table key) : (ofTable t).rows = t.rows.map (fun r => (key r, r)) := rfl

omit [DecidableEq κ] in
@[simp] theorem values_ofTable (t : Table key) : values (ofTable t) = t.rows := by
  rw [values, ofTable, List.map_map]
  exact List.map_id _

omit [DecidableEq κ] in
@[simp] theorem mem_ofTable : (k, r) ∈ ofTable t ↔ r ∈ t ∧ key r = k := by
  simp only [ofTable, Table.mem_def, List.mem_map, Prod.mk.injEq]
  constructor
  · rintro ⟨r', hmem, rfl, rfl⟩
    exact ⟨hmem, rfl⟩
  · rintro ⟨hmem, rfl⟩
    exact ⟨r, hmem, rfl, rfl⟩

/-- The row under a key. -/
theorem get?_ofTable (t : Table key) (k : κ) : get? (ofTable t) k = t.find? k := by
  refine Option.ext (fun r => ?_)
  rw [get?_eq_some_iff, mem_ofTable, Table.find?_eq_some_iff]

/-- To set a row under a key that is not taken is to insert it. -/
theorem set_ofTable_insert (h : t.insert r = some t') : set (ofTable t) (key r) r = ofTable t' := by
  have hfree : key r ∉ (ofTable t).rows.map Prod.fst := by
    intro hmem
    obtain ⟨⟨k, r'⟩, hmem', hk⟩ := List.mem_map.mp hmem
    obtain ⟨hr', rfl⟩ := mem_ofTable.mp hmem'
    exact Table.insert_key_ne h r' hr' hk
  have hinsert : (ofTable t).insert (key r, r) = some ⟨(ofTable t).rows ++ [(key r, r)], _⟩ := dif_neg hfree
  rw [set, hinsert]
  exact Table.ext (by simp [ofTable, Table.rows_insert h])

/-- To set the image of the row under a key is to update it. -/
theorem set_ofTable_update {p : α → Bool} {f : α → α} (hf : ∀ r, key (f r) = key r) (hr : t.find? k = some r)
    (hp : ∀ x ∈ t, p x = true ↔ key x = k) : set (ofTable t) k (f r) = ofTable (t.update p f hf) := by
  obtain ⟨hmem, rfl⟩ := Table.find?_eq_some_iff.mp hr
  have hget : get? (ofTable t) (key r) = some r := by rw [get?_ofTable, hr]
  refine Table.ext ?_
  have hupdate : (t.update p f hf).rows = t.rows.map (fun r => if p r then f r else r) := rfl
  rw [rows_set hget, rows_ofTable, rows_ofTable, hupdate, List.map_map, List.map_map]
  refine List.map_congr_left (fun x hx => ?_)
  by_cases hk : key x = key r
  · have hxr : x = r := t.eq_of_key_eq hx hmem hk
    subst hxr
    simp [(hp x hx).mpr rfl, hf]
  · have hno : p x = false := Bool.eq_false_iff.mpr (fun h => hk ((hp x hx).mp h))
    simp [hk, hno]

/-- To replace the row under a key is to update it, and to select it before. -/
theorem replace_ofTable {p q : α → Bool} {f : α → α} (hf : ∀ r, key (f r) = key r)
    (hq : ∀ x ∈ t, q x = true ↔ key x = k ∧ p x = true) :
    replace (ofTable t) k p f = (((t.select q).head?).map f, ofTable (t.update q f hf)) := by
  rw [replace_eq, get?_ofTable, Table.head?_select_key hq]
  cases h : (t.find? k).filter p with
  | none =>
    have hnone : ∀ x ∈ t, q x = true → f x = x := by
      intro x hx hqx
      rw [Table.eq_false_of_filter_find? hq h x hx] at hqx
      cases hqx
    rw [Table.update_of_eq hf hnone]
    rfl
  | some r =>
    have hset := set_ofTable_update hf (Option.filter_eq_some_iff.mp h).1 (Table.eq_true_iff_of_filter_find? hq h)
    rw [← hset]
    rfl

end OfTable

end OrderedMap

/-- A set that lists its elements in the order of insertion, no two of them the same. -/
structure OrderedSet {α : Type*} (same : α → α → Bool) where
  elems : List α
  distinct : elems.Pairwise (fun x y => same x y = false)

namespace OrderedSet

variable {α : Type*} {same : α → α → Bool}

/-- `new Set()`. -/
def empty : OrderedSet same := ⟨[], .nil⟩

/-- `set.has(x)`. -/
def has (s : OrderedSet same) (x : α) : Bool := s.elems.any (fun y => same y x)

/-- `set.add(x)`. -/
def add (s : OrderedSet same) (x : α) : OrderedSet same :=
  if h : s.has x then s
  else ⟨s.elems ++ [x], by
    rw [List.pairwise_append]
    refine ⟨s.distinct, List.pairwise_singleton _ _, fun y hy z hz => ?_⟩
    rw [List.mem_singleton.1 hz]
    exact Bool.eq_false_iff.2 (fun hs => h (List.any_eq_true.2 ⟨y, hy, hs⟩))⟩

/-- `set.delete(x)`. -/
def erase (s : OrderedSet same) (x : α) : OrderedSet same :=
  ⟨s.elems.filter (fun y => !same y x), s.distinct.filter _⟩

@[simp] theorem has_empty (x : α) : (empty : OrderedSet same).has x = false := rfl

/-- Adding what is there changes nothing. -/
theorem add_of_has {s : OrderedSet same} {x : α} (h : s.has x = true) : s.add x = s := dif_pos h

/-- Adding what is not there does. -/
theorem add_ne {s : OrderedSet same} {x : α} (h : s.has x = false) : s.add x ≠ s := by
  intro he
  have hlen := congrArg (fun t : OrderedSet same => t.elems.length) he
  simp [add, h] at hlen

/-- Deleting what is not there changes nothing. -/
theorem erase_of_not_has {s : OrderedSet same} {x : α} (h : s.has x = false) : s.erase x = s := by
  have helems : s.elems.filter (fun y => !same y x) = s.elems := by
    rw [List.filter_eq_self]
    intro y hy
    rw [Bool.not_eq_true', Bool.eq_false_iff]
    exact List.any_eq_false.1 h y hy
  cases s
  exact (OrderedSet.mk.injEq _ _ _ _).mpr helems

/-- A set that has an element is not empty. -/
theorem elems_ne_nil {s : OrderedSet same} {x : α} (h : s.has x = true) : s.elems ≠ [] := by
  intro hnil
  rw [has, hnil] at h
  cases h

/-- The relation is symmetric and transitive. -/
class IsSame (same : α → α → Bool) : Prop where
  symm : ∀ {x y}, same x y = true → same y x = true
  trans : ∀ {x y z}, same x y = true → same y z = true → same x z = true

instance [DecidableEq α] : IsSame (fun x y : α => decide (x = y)) where
  symm h := decide_eq_true (of_decide_eq_true h).symm
  trans h h' := decide_eq_true ((of_decide_eq_true h).trans (of_decide_eq_true h'))

variable [IsSame same]

@[simp] theorem has_add (s : OrderedSet same) (x y : α) : (s.add x).has y = (s.has y || same x y) := by
  unfold add
  split
  · rename_i h
    obtain ⟨z, hz, hzx⟩ := List.any_eq_true.1 h
    by_cases hxy : same x y = true
    · rw [hxy, Bool.or_true]
      exact List.any_eq_true.2 ⟨z, hz, IsSame.trans hzx hxy⟩
    · rw [Bool.eq_false_iff.2 hxy, Bool.or_false]
  · simp [has]

@[simp] theorem has_erase (s : OrderedSet same) (x y : α) : (s.erase x).has y = (s.has y && !same x y) := by
  rw [Bool.eq_iff_iff, Bool.and_eq_true, Bool.not_eq_true']
  simp only [has, erase, List.any_eq_true, List.mem_filter, Bool.not_eq_true']
  constructor
  · rintro ⟨z, ⟨hz, hzx⟩, hzy⟩
    refine ⟨⟨z, hz, hzy⟩, Bool.eq_false_iff.2 (fun hxy => ?_)⟩
    rw [IsSame.trans hzy (IsSame.symm hxy)] at hzx
    cases hzx
  · rintro ⟨⟨z, hz, hzy⟩, hxy⟩
    refine ⟨z, ⟨hz, Bool.eq_false_iff.2 (fun hzx => ?_)⟩, hzy⟩
    rw [IsSame.trans (IsSame.symm hzx) hzy] at hxy
    cases hxy

end OrderedSet
