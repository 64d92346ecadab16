import Mathlib.Data.List.Nodup
import Mathlib.Data.List.Perm.Basic
import Mathlib.Data.List.Sort
import Mathlib.Data.Prod.Lex
import Mathlib.Order.Lattice

/-!
# Pages of a list that is sorted anew for each of them

A page is a window on the rows in descending order of a key. Rows of one key come in any order, and in another for every page, so
the pages together are the rows just when no two rows of one key stand on either side of a page's end.
-/

namespace Pages

variable {α κ : Type*} [LinearOrder κ] {key : α → κ} {rows l l' : List α}

/-- The rows in descending order of the key. -/
def Ordering (key : α → κ) (rows l : List α) : Prop := l.Perm rows ∧ l.Pairwise (fun a b => key b ≤ key a)

/-- A page of a list, counted from 1. -/
def window (page limit : Nat) (l : List α) : List α := (l.drop ((page - 1) * limit)).take limit

/-- The number of pages, rounded up. -/
def pageCount (total limit : Nat) : Nat := (total + limit - 1) / limit

/-- What the pages may hold, each in an order of its own. -/
def Reading (key : α → κ) (rows : List α) (limit : Nat) (r : Nat → List α) : Prop :=
  ∀ page, 1 ≤ page → ∃ l, Ordering key rows l ∧ r page = window page limit l

/-- The pages together are the rows, none is empty, and every later one is. -/
structure Partition (rows : List α) (limit : Nat) (r : Nat → List α) : Prop where
  together : ((List.range (pageCount rows.length limit)).flatMap (fun i => r (i + 1))).Perm rows
  nonempty : ∀ page, 1 ≤ page → page ≤ pageCount rows.length limit → r page ≠ []
  later : ∀ page, pageCount rows.length limit < page → r page = []

/-- No two rows of one key stand on either side of the place. -/
def Separated (key : α → κ) (l : List α) (n : Nat) : Prop :=
  ∀ a b, l[n - 1]? = some a → l[n]? = some b → key a ≠ key b

/-- No two rows of one key stand on either side of the end of a page, in whatever order rows of one key are. -/
def Apart (key : α → κ) (rows : List α) (limit : Nat) : Prop :=
  ∀ l, Ordering key rows l → ∀ page, 1 ≤ page → Separated key l (page * limit)

/-! ## Rows whose order is left open -/

section Arrange

variable {ι : Type*} [DecidableEq ι] {id : α → ι} {code : ι → Nat}

/-- The place of a row: where its id is first named, and behind those that are named its code. -/
def place (id : α → ι) (code : ι → Nat) (order : List ι) (a : α) : Nat ×ₗ Nat := toLex (order.idxOf (id a), code (id a))

/-- The rows in the order in which their ids are named. -/
def arrange (id : α → ι) (code : ι → Nat) (order : List ι) (rows : List α) : List α :=
  rows.insertionSort (fun a b => place id code order a ≤ place id code order b)

theorem arrange_perm (order : List ι) (rows : List α) : (arrange id code order rows).Perm rows := List.perm_insertionSort _ _

@[simp] theorem mem_arrange {order : List ι} {a : α} : a ∈ arrange id code order rows ↔ a ∈ rows := (arrange_perm order rows).mem_iff

theorem pairwise_arrange (order : List ι) (rows : List α) :
    (arrange id code order rows).Pairwise (fun a b => place id code order a ≤ place id code order b) := by
  have htotal : Std.Total (fun a b => place id code order a ≤ place id code order b) := ⟨fun _ _ => le_total _ _⟩
  have htrans : IsTrans α (fun a b => place id code order a ≤ place id code order b) := ⟨fun _ _ _ => le_trans⟩
  exact List.pairwise_insertionSort _ rows

/-- Rows of one place have one id. -/
theorem id_eq_of_place (hcode : Function.Injective code) {order : List ι} {a b : α}
    (h : place id code order a = place id code order b) : id a = id b :=
  hcode (congrArg (fun x => (ofLex x).2) h)

/-- Two lists of the same rows that are in order are one. -/
theorem eq_of_places (hcode : Function.Injective code) {order : List ι} (hnodup : (l.map id).Nodup) (hperm : l.Perm l')
    (hl : l.Pairwise (fun a b => place id code order a ≤ place id code order b))
    (hl' : l'.Pairwise (fun a b => place id code order a ≤ place id code order b)) : l = l' := by
  refine hperm.eq_of_pairwise (fun a b ha hb hab hba => ?_) hl hl'
  exact List.inj_on_of_nodup_map hnodup ha (hperm.mem_iff.mpr hb) (id_eq_of_place hcode (le_antisymm hab hba))

/-- How rows are arranged does not depend on the order they are given in. -/
theorem arrange_congr (hcode : Function.Injective code) (order : List ι) {rows' : List α} (hnodup : (rows.map id).Nodup)
    (hperm : rows.Perm rows') : arrange id code order rows = arrange id code order rows' := by
  have hleft : (arrange id code order rows).Perm rows := arrange_perm order rows
  have hright : (arrange id code order rows').Perm rows' := arrange_perm order rows'
  exact eq_of_places hcode ((hleft.map id).nodup_iff.mpr hnodup) (hleft.trans (hperm.trans hright.symm))
    (pairwise_arrange order rows) (pairwise_arrange order rows')

end Arrange

/-- The rows by descending key, rows of one key as they stand. -/
def descending (key : α → κ) (rows : List α) : List α := rows.mergeSort (fun a b => key b ≤ key a)

theorem le_pageCount_iff {total limit page : Nat} (hl : 1 ≤ limit) (hp : 1 ≤ page) :
    page ≤ pageCount total limit ↔ (page - 1) * limit < total := by
  obtain ⟨q, rfl⟩ : ∃ q, page = q + 1 := ⟨page - 1, by omega⟩
  rw [pageCount, Nat.le_div_iff_mul_le hl, Nat.succ_mul, Nat.add_sub_cancel]
  omega

theorem window_eq_nil_iff {page limit : Nat} (hl : 1 ≤ limit) : window page limit l = [] ↔ l.length ≤ (page - 1) * limit := by
  rw [window, List.take_eq_nil_iff, List.drop_eq_nil_iff]
  constructor
  · rintro (h | h)
    · omega
    · exact h
  · exact Or.inr

/-- Behind the last page nothing is read. -/
theorem Reading.later {limit : Nat} (hl : 1 ≤ limit) {r : Nat → List α} (hr : Reading key rows limit r) {page : Nat}
    (hlt : pageCount rows.length limit < page) : r page = [] := by
  obtain ⟨l, hord, heq⟩ := hr page (by omega)
  rw [heq, window_eq_nil_iff hl, hord.1.length_eq]
  have hstart := mt (le_pageCount_iff hl (by omega)).mpr (Nat.not_le_of_lt hlt)
  omega

/-- Two pages of a partition have no row in common. -/
theorem Partition.disjoint {limit : Nat} {r : Nat → List α} (h : Partition rows limit r) (hnodup : rows.Nodup) {p q : Nat}
    (hpq : p < q) (hq : q < pageCount rows.length limit) {a : α} (ha : a ∈ r (p + 1)) : a ∉ r (q + 1) := by
  have hall := (List.nodup_flatMap.mp (h.together.nodup_iff.mpr hnodup)).2
  have hdisj := List.pairwise_iff_getElem.mp hall p q (by rw [List.length_range]; omega) (by rwa [List.length_range]) hpq
  simp only [List.getElem_range] at hdisj
  exact fun hmem => hdisj ha hmem

/-- The keys of an ordering are the keys in descending order. -/
theorem Ordering.keys (h : Ordering key rows l) : Ordering id (rows.map key) (l.map key) :=
  ⟨h.1.map key, List.pairwise_map.mpr h.2⟩

end Pages
