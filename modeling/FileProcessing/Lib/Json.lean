import FileProcessing.Lib.Collections

/-!
# JSON values

What `JSON.parse` returns, property reads and object spread on it, and `SameValueZero`, the equality of JavaScript's `Set`. A
number is a rational, or infinite where its text is out of range; the two zeros are one, as `SameValueZero` has it. Two arrays or
two objects are never the same: each parse makes new ones.
-/

/-- A number a JSON text denotes. -/
inductive JsNumber where
  | finite (value : Rat)
  | infinite (negative : Bool)
  deriving DecidableEq, Repr

/-- A JSON value. -/
inductive Json where
  | null
  | bool (value : Bool)
  | number (value : JsNumber)
  | string (value : String)
  | array (items : List Json)
  | object (fields : List (String × Json))
  deriving Repr

/-- What reading a property returns. -/
inductive JsValue where
  | undefined
  | json (value : Json)
  deriving Repr

/-- A string, as a value. -/
def JsValue.string (s : String) : JsValue := .json (.string s)

/-- The value, where it is a string. -/
def JsValue.asString : JsValue → Option String
  | .json (.string s) => some s
  | _ => none

/-- The value, where it is a number. -/
def JsValue.asNumber : JsValue → Option JsNumber
  | .json (.number n) => some n
  | _ => none

namespace Json

/-- The own properties of a value, in order: what `...value` spreads. -/
def fields : Json → List (String × Json)
  | .object fields => fields
  | .array items => items.mapIdx (fun i item => (toString i, item))
  | _ => []

/-- The property of a name that is not one of the built-in ones. -/
def get (value : Json) (name : String) : JsValue :=
  match value.fields.find? (fun field => field.1 = name) with
  | some field => .json field.2
  | none => .undefined

/-- An array has no property whose name holds a character other than a digit. -/
theorem get_array {items : List Json} {name : String} (h : ∃ c ∈ name.toList, c.isDigit = false) :
    (Json.array items).get name = .undefined := by
  have hnone : (Json.array items).fields.find? (fun field => field.1 = name) = none := by
    rw [List.find?_eq_none]
    intro field hf he
    obtain ⟨i, hi, rfl⟩ := List.mem_mapIdx.1 hf
    obtain ⟨c, hc, hd⟩ := h
    have hname : (toString i : String) = name := of_decide_eq_true he
    rw [← hname, Nat.toString_eq_ofList_toDigits, String.toList_ofList] at hc
    rw [Nat.isDigit_of_mem_toDigits (by decide) (by decide) hc] at hd
    cases hd
  unfold get
  rw [hnone]

/-- Define a property: in place when it is there, at the end when it is not. -/
def setField (name : String) (value : Json) : List (String × Json) → List (String × Json)
  | [] => [(name, value)]
  | field :: rest => if field.1 = name then (name, value) :: rest else field :: setField name value rest

/-- `{ ...fields, ...payload }`. -/
def spread (fields : List (String × Json)) (payload : Json) : Json :=
  .object (payload.fields.foldl (fun acc field => setField field.1 field.2 acc) fields)

/-- The value is nested no deeper than this; a value that is no array and no object is not nested. -/
def nestedWithin : Nat → Json → Bool
  | 0, .array _ | 0, .object _ => false
  | n + 1, .array items => items.all (nestedWithin n)
  | n + 1, .object fields => fields.all (fun field => nestedWithin n field.2)
  | _, _ => true

/-- What a definition of a property makes of the properties. -/
theorem get_setField (name : String) (value : Json) (fields : List (String × Json)) (name' : String) :
    (Json.object (setField name value fields)).get name' =
      if name = name' then .json value else (Json.object fields).get name' := by
  induction fields with
  | nil =>
    by_cases hn : name = name'
    · simp [setField, get, Json.fields, hn]
    · simp [setField, get, Json.fields, hn]
  | cons field rest ih =>
    have hcons (f : String × Json) (fs : List (String × Json)) :
        (Json.object (f :: fs)).get name' = if f.1 = name' then .json f.2 else (Json.object fs).get name' := by
      by_cases hf : f.1 = name'
      · simp [get, Json.fields, hf]
      · simp [get, Json.fields, hf]
    by_cases hf : field.1 = name
    · rw [setField, if_pos hf, hcons, hcons, hf]
      split <;> rfl
    · rw [setField, if_neg hf, hcons, ih, hcons]
      by_cases hn : name = name'
      · rw [if_pos hn, if_pos hn, if_neg (fun h => hf (h.trans hn.symm))]
      · rw [if_neg hn, if_neg hn]

/-- Definitions of other properties leave a property as it was. -/
theorem get_foldl_setField {name : String} (defined : List (String × Json)) (fields : List (String × Json))
    (h : ∀ value, (name, value) ∉ defined) :
    (Json.object (defined.foldl (fun acc field => setField field.1 field.2 acc) fields)).get name = (Json.object fields).get name := by
  induction defined generalizing fields with
  | nil => rfl
  | cons field rest ih =>
    have hne : field.1 ≠ name := by
      rintro rfl
      exact h field.2 List.mem_cons_self
    rw [List.foldl_cons, ih _ (fun value hv => h value (List.mem_cons_of_mem field hv)), get_setField, if_neg hne]

/-- A property the payload does not have is that of the fields. -/
theorem get_spread_of_not_mem (fields : List (String × Json)) {payload : Json} {name : String}
    (h : ∀ value, (name, value) ∉ payload.fields) : (spread fields payload).get name = (Json.object fields).get name :=
  get_foldl_setField payload.fields fields h

/-- A property the payload has is the payload's. -/
theorem get_spread_of_mem (fields : List (String × Json)) {payload : Json} {name : String} {value : Json}
    (hnodup : (payload.fields.map Prod.fst).Nodup) (h : (name, value) ∈ payload.fields) :
    (spread fields payload).get name = .json value := by
  rw [spread]
  generalize payload.fields = defined at hnodup h
  induction defined generalizing fields with
  | nil => cases h
  | cons field rest ih =>
    obtain ⟨hfirst, hrest⟩ := List.nodup_cons.mp hnodup
    rw [List.foldl_cons]
    rcases List.mem_cons.mp h with rfl | hmem
    · have hother : ∀ value', (name, value') ∉ rest := fun value' hv =>
        hfirst (List.mem_map.mpr ⟨(name, value'), hv, rfl⟩)
      rw [get_foldl_setField rest _ hother, get_setField, if_pos rfl]
    · exact ih _ hrest hmem

/-- What holds of a value that is defined and of those there were, holds of all. -/
theorem forall_setField {P : Json → Prop} {name : String} {value : Json} {fields : List (String × Json)} (hv : P value)
    (h : ∀ field ∈ fields, P field.2) : ∀ field ∈ setField name value fields, P field.2 := by
  induction fields with
  | nil =>
    intro field hf
    cases List.mem_singleton.1 hf
    exact hv
  | cons first rest ih =>
    obtain ⟨hfirst, hrest⟩ := List.forall_mem_cons.1 h
    rw [setField]
    split
    · exact List.forall_mem_cons.2 ⟨hv, hrest⟩
    · exact List.forall_mem_cons.2 ⟨hfirst, ih hrest⟩

/-- A value that a property has is among the properties. -/
theorem mem_of_get {fields : List (String × Json)} {name : String} {value : Json} (h : (Json.object fields).get name = .json value) :
    (name, value) ∈ fields := by
  unfold get at h
  split at h
  · rename_i field hf
    cases h
    have hname : field.1 = name := by simpa using List.find?_some hf
    exact hname ▸ List.mem_of_find?_eq_some hf
  · cases h

/-- The properties of a spread over values that hold, hold just when those of the payload do. -/
theorem forall_spread {P : Json → Prop} {fields : List (String × Json)} {payload : Json}
    (hnodup : (payload.fields.map Prod.fst).Nodup) (h : ∀ field ∈ fields, P field.2) :
    (∀ field ∈ (spread fields payload).fields, P field.2) ↔ ∀ field ∈ payload.fields, P field.2 := by
  constructor
  · rintro hall ⟨name, value⟩ hf
    exact hall (name, value) (mem_of_get (get_spread_of_mem fields hnodup hf))
  · intro hall
    rw [spread, Json.fields]
    generalize payload.fields = defined at hall
    induction defined generalizing fields with
    | nil => exact h
    | cons field rest ih =>
      obtain ⟨hfirst, hrest⟩ := List.forall_mem_cons.1 hall
      exact ih (forall_setField hfirst h) hrest

/-- An array or an object is nested as deep as its properties, and once more. -/
theorem nestedWithin_succ {payload : Json} {n : Nat} :
    payload.nestedWithin (n + 1) = true ↔ ∀ field ∈ payload.fields, field.2.nestedWithin n = true := by
  cases payload with
  | null | bool | number | string => simp [nestedWithin, Json.fields]
  | object fields => rw [nestedWithin, List.all_eq_true, Json.fields]
  | array items =>
    rw [nestedWithin, List.all_eq_true, Json.fields]
    constructor
    · intro h field hf
      obtain ⟨i, hi, rfl⟩ := List.mem_mapIdx.1 hf
      exact h _ (List.getElem_mem hi)
    · intro h item hmem
      obtain ⟨i, hi, rfl⟩ := List.getElem_of_mem hmem
      exact h (toString i, items[i]) (List.mem_mapIdx.2 ⟨i, hi, rfl⟩)

/-- An array or an object that is laid over strings makes an object that is nested as deep. -/
theorem nestedWithin_spread {fields : List (String × Json)} {payload : Json} (hnodup : (payload.fields.map Prod.fst).Nodup)
    (hstrings : ∀ field ∈ fields, ∃ text, field.2 = .string text)
    (hpayload : (∃ items, payload = .array items) ∨ ∃ fields, payload = .object fields) (n : Nat) :
    (spread fields payload).nestedWithin n = true ↔ payload.nestedWithin n = true := by
  cases n with
  | zero => rcases hpayload with ⟨items, rfl⟩ | ⟨fields, rfl⟩ <;> rfl
  | succ n =>
    rw [nestedWithin_succ, nestedWithin_succ]
    refine forall_spread (P := fun value => nestedWithin n value = true) hnodup (fun field hf => ?_)
    obtain ⟨text, ht⟩ := hstrings field hf
    rw [ht]
    cases n <;> rfl

end Json

/-- `SameValueZero`. -/
def sameValueZero : JsValue → JsValue → Bool
  | .undefined, .undefined => true
  | .json .null, .json .null => true
  | .json (.bool b), .json (.bool b') => b = b'
  | .json (.number n), .json (.number n') => n = n'
  | .json (.string s), .json (.string s') => s = s'
  | _, _ => false

/-- The primitive values are the same when they are equal, and no others are. -/
theorem eq_of_sameValueZero {x y : JsValue} (h : sameValueZero x y = true) : x = y := by
  unfold sameValueZero at h
  split at h
  · rfl
  · rfl
  · rw [of_decide_eq_true h]
  · rw [of_decide_eq_true h]
  · rw [of_decide_eq_true h]
  · cases h

instance : OrderedSet.IsSame sameValueZero where
  symm {x y} h := by
    obtain rfl := eq_of_sameValueZero h
    exact h
  trans {x y z} h h' := by
    obtain rfl := eq_of_sameValueZero h
    exact h'

@[simp] theorem sameValueZero_string (x : JsValue) (s : String) :
    sameValueZero x (.string s) = true ↔ x = .string s := by
  refine ⟨eq_of_sameValueZero, ?_⟩
  rintro rfl
  exact decide_eq_true rfl
