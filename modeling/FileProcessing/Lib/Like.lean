/-!
# `LIKE` and `ILIKE`

SQL's pattern matching, with the backslash for its escape character: `%` stands for any text, `_` for any character, and a
backslash takes the character after it as it is. `ILIKE` compares in lower case.
-/

namespace Like

/-- The predicate holds of a text or of what is left of it after some of its characters. -/
def anyTail (p : List Char → Bool) : List Char → Bool
  | [] => p []
  | c :: text => p (c :: text) || anyTail p text

/-- The text matches the pattern. -/
def like : List Char → List Char → Bool
  | [], text => text.isEmpty
  | '%' :: pattern, text => anyTail (like pattern) text
  | '_' :: pattern, text =>
    match text with
    | [] => false
    | _ :: text => like pattern text
  -- PostgreSQL raises an error here; no pattern that ends with a wildcard comes to it
  | ['\\'], _ => false
  | '\\' :: c :: pattern, text =>
    match text with
    | [] => false
    | d :: text => c == d && like pattern text
  | c :: pattern, text =>
    match text with
    | [] => false
    | d :: text => c == d && like pattern text

/-- The lower case of a character: of the three special characters of a pattern each has itself, and no other has it. -/
structure CaseFold where
  lower : Char → Char
  percent : ∀ c, lower c = '%' ↔ c = '%'
  underscore : ∀ c, lower c = '_' ↔ c = '_'
  backslash : ∀ c, lower c = '\\' ↔ c = '\\'

/-- `ILIKE`, of a value and a pattern. -/
def ilike (fold : CaseFold) (value pattern : String) : Bool :=
  like (pattern.toList.map fold.lower) (value.toList.map fold.lower)

/-- The part is somewhere in the text. -/
def contains (part text : List Char) : Bool := anyTail part.isPrefixOf text

/-- The part is in the value, whatever the case of either. -/
def icontains (fold : CaseFold) (value part : String) : Bool :=
  contains (part.toList.map fold.lower) (value.toList.map fold.lower)

/-- A character that stands for itself in a pattern. -/
def Literal (c : Char) : Prop := c ≠ '%' ∧ c ≠ '_' ∧ c ≠ '\\'

theorem anyTail_iff {p : List Char → Bool} {text : List Char} :
    anyTail p text = true ↔ ∃ before after, text = before ++ after ∧ p after = true := by
  induction text with
  | nil =>
    simp only [anyTail]
    constructor
    · intro h
      exact ⟨[], [], rfl, h⟩
    · rintro ⟨before, after, heq, h⟩
      obtain ⟨-, rfl⟩ := List.append_eq_nil_iff.mp heq.symm
      exact h
  | cons c text ih =>
    simp only [anyTail, Bool.or_eq_true, ih]
    constructor
    · rintro (h | ⟨before, after, rfl, h⟩)
      · exact ⟨[], c :: text, rfl, h⟩
      · exact ⟨c :: before, after, rfl, h⟩
    · rintro ⟨before, after, heq, h⟩
      cases before with
      | nil => exact Or.inl (heq ▸ h)
      | cons d before => exact Or.inr ⟨before, after, (List.cons.inj heq).2, h⟩

/-- A text contains a part that stands between two others in it. -/
theorem contains_iff {part text : List Char} : contains part text = true ↔ ∃ before after, text = before ++ (part ++ after) := by
  rw [contains, anyTail_iff]
  constructor
  · rintro ⟨before, rest, rfl, h⟩
    obtain ⟨after, rfl⟩ := List.isPrefixOf_iff_prefix.mp h
    exact ⟨before, after, rfl⟩
  · rintro ⟨before, after, rfl⟩
    exact ⟨before, part ++ after, rfl, List.isPrefixOf_iff_prefix.mpr (List.prefix_append part after)⟩

theorem like_percent (pattern text : List Char) : like ('%' :: pattern) text = anyTail (like pattern) text := by
  cases text <;> rfl

theorem like_literal {c : Char} (h : Literal c) (pattern : List Char) (d : Char) (text : List Char) :
    like (c :: pattern) (d :: text) = (c == d && like pattern text) := by
  rw [like] <;> simp [h.1, h.2.1, h.2.2]

theorem like_literal_nil {c : Char} (h : Literal c) (pattern : List Char) : like (c :: pattern) [] = false := by
  rw [like] <;> simp [h.1, h.2.1, h.2.2]

/-! ## A pattern between two wildcards -/

/-- A part without special characters is matched by itself. -/
theorem like_append {part : List Char} (h : ∀ c ∈ part, Literal c) (pattern text : List Char) :
    like (part ++ pattern) text = true ↔ ∃ rest, text = part ++ rest ∧ like pattern rest = true := by
  induction part generalizing text with
  | nil =>
    constructor
    · intro hl
      exact ⟨text, rfl, hl⟩
    · rintro ⟨rest, rfl, hl⟩
      exact hl
  | cons c part ih =>
    have hc := h c List.mem_cons_self
    have hpart : ∀ d ∈ part, Literal d := fun d hd => h d (List.mem_cons_of_mem c hd)
    cases text with
    | nil =>
      rw [List.cons_append, like_literal_nil hc]
      constructor
      · intro hl
        cases hl
      · rintro ⟨rest, heq, -⟩
        cases heq
    | cons d text =>
      rw [List.cons_append, like_literal hc, Bool.and_eq_true, beq_iff_eq, ih hpart]
      constructor
      · rintro ⟨rfl, rest, rfl, hl⟩
        exact ⟨rest, rfl, hl⟩
      · rintro ⟨rest, heq, hl⟩
        rw [List.cons_append, List.cons.injEq] at heq
        exact ⟨heq.1.symm, rest, heq.2, hl⟩

/-- The wildcard matches every text. -/
theorem like_any (text : List Char) : like ['%'] text = true := by
  rw [like_percent, anyTail_iff]
  exact ⟨text, [], (List.append_nil text).symm, rfl⟩

/-- A part without special characters, between two wildcards, matches the texts that contain it. -/
theorem like_between {part : List Char} (h : ∀ c ∈ part, Literal c) (text : List Char) :
    like ('%' :: (part ++ ['%'])) text = contains part text := by
  rw [Bool.eq_iff_iff, like_percent, anyTail_iff, contains_iff]
  constructor
  · rintro ⟨before, tail, rfl, hl⟩
    obtain ⟨after, rfl, -⟩ := (like_append h ['%'] tail).mp hl
    exact ⟨before, after, rfl⟩
  · rintro ⟨before, after, rfl⟩
    exact ⟨before, part ++ after, rfl, (like_append h ['%'] (part ++ after)).mpr ⟨after, rfl, like_any after⟩⟩

/-! ## What a search with a special character finds -/

/-- A text the search finds between two wildcards, with nothing for a `%` and `fill` for a `_`. A backslash at the end of the
search takes the wildcard after it. -/
def shortest (fill : Char) : List Char → List Char
  | [] => []
  | '%' :: search => shortest fill search
  | '_' :: search => fill :: shortest fill search
  | ['\\'] => ['%']
  | '\\' :: c :: search => c :: shortest fill search
  | c :: search => c :: shortest fill search

/-- The last of these cases is that of a character that stands for itself. -/
theorem literal_of_default {c : Char} {search : List Char} (hp : c = '%' → False) (hu : c = '_' → False)
    (hb : c = '\\' → search = [] → False) (hb' : ∀ d rest, c = '\\' → search = d :: rest → False) : Literal c := by
  refine ⟨hp, hu, fun h => ?_⟩
  cases search with
  | nil => exact hb h rfl
  | cons d rest => exact hb' d rest h rfl

/-- The induction on a search: by a wildcard, a backslash with what it takes, or a character that stands for itself. -/
@[elab_as_elim] theorem search_induction {motive : List Char → Prop} (nil : motive [])
    (percent : ∀ search, motive search → motive ('%' :: search)) (underscore : ∀ search, motive search → motive ('_' :: search))
    (lastBackslash : motive ['\\']) (backslash : ∀ c search, motive search → motive ('\\' :: c :: search))
    (literal : ∀ c search, Literal c → motive search → motive (c :: search)) (search : List Char) : motive search := by
  fun_induction shortest '%' search with
  | case1 => exact nil
  | case2 search ih => exact percent search ih
  | case3 search ih => exact underscore search ih
  | case4 => exact lastBackslash
  | case5 c search ih => exact backslash c search ih
  | case6 c search hp hu hb hb' ih => exact literal c search (literal_of_default hp hu hb hb') ih

theorem shortest_percent (fill : Char) (search : List Char) : shortest fill ('%' :: search) = shortest fill search := rfl

theorem shortest_underscore (fill : Char) (search : List Char) : shortest fill ('_' :: search) = fill :: shortest fill search := rfl

theorem shortest_backslash (fill c : Char) (search : List Char) : shortest fill ('\\' :: c :: search) = c :: shortest fill search := rfl

theorem shortest_literal (fill : Char) {c : Char} (h : Literal c) (search : List Char) :
    shortest fill (c :: search) = c :: shortest fill search := by
  rw [shortest] <;> simp [h.1, h.2.1, h.2.2]

theorem like_shortest (fill : Char) (search : List Char) : like (search ++ ['%']) (shortest fill search) = true := by
  induction search using search_induction with
  | nil => exact like_any []
  | percent search ih =>
    rw [List.cons_append, like_percent, anyTail_iff]
    exact ⟨[], _, rfl, ih⟩
  | underscore search ih => exact ih
  | lastBackslash => rfl
  | backslash c search ih =>
    rw [List.cons_append, List.cons_append, shortest_backslash, like, ih, beq_self_eq_true, Bool.and_true]
  | literal c search hc ih =>
    rw [List.cons_append, shortest_literal fill hc, like_literal hc, ih, beq_self_eq_true, Bool.and_true]

theorem length_shortest (fill : Char) (search : List Char) : (shortest fill search).length ≤ search.length := by
  induction search using search_induction with
  | nil => exact Nat.le_refl _
  | percent search ih => exact Nat.le_succ_of_le ih
  | underscore search ih => exact Nat.succ_le_succ ih
  | lastBackslash => exact Nat.le_refl _
  | backslash c search ih => exact Nat.succ_le_succ (Nat.le_succ_of_le ih)
  | literal c search hc ih =>
    rw [shortest_literal fill hc]
    exact Nat.succ_le_succ ih

/-- The search itself is that text where it has no special character, and only there. -/
theorem literal_of_shortest {fill : Char} (hfill : fill ≠ '_') {search : List Char} (h : shortest fill search = search) :
    ∀ c ∈ search, Literal c := by
  induction search using search_induction with
  | nil => exact fun c hc => by cases hc
  | percent search ih =>
    have hlen := length_shortest fill search
    rw [shortest_percent] at h
    rw [h, List.length_cons] at hlen
    omega
  | underscore search ih => exact absurd (List.cons.inj h).1 hfill
  | lastBackslash =>
    have hne : ['%'] ≠ ['\\'] := by decide
    exact absurd h hne
  | backslash c search ih =>
    have hlen := length_shortest fill search
    have heq := congrArg List.length (List.cons.inj h).2
    rw [List.length_cons] at heq
    omega
  | literal c search hc ih =>
    rw [shortest_literal fill hc] at h
    intro d hd
    rcases List.mem_cons.mp hd with rfl | hd
    · exact hc
    · exact ih (List.cons.inj h).2 d hd

/-- A search with a special character is not in the text it finds. -/
theorem not_contains_shortest {fill : Char} (hfill : fill ≠ '_') {search : List Char} (h : ¬ ∀ c ∈ search, Literal c) :
    contains search (shortest fill search) = false := by
  rw [← Bool.not_eq_true, contains_iff]
  rintro ⟨before, after, heq⟩
  have hshort := length_shortest fill search
  have hlen := congrArg List.length heq
  rw [List.length_append, List.length_append] at hlen
  obtain rfl : before = [] := List.length_eq_zero_iff.mp (by omega)
  obtain rfl : after = [] := List.length_eq_zero_iff.mp (by omega)
  rw [List.nil_append, List.append_nil] at heq
  exact h (literal_of_shortest hfill heq)

/-! ## In lower case -/

/-- Lower case changes no special character and makes none. -/
theorem CaseFold.literal (fold : CaseFold) {c : Char} : Literal (fold.lower c) ↔ Literal c := by
  simp only [Literal, ne_eq, fold.percent, fold.underscore, fold.backslash]

theorem CaseFold.forall_literal (fold : CaseFold) {text : List Char} :
    (∀ c ∈ text.map fold.lower, Literal c) ↔ ∀ c ∈ text, Literal c := by
  rw [List.forall_mem_map]
  exact forall₂_congr (fun c _ => fold.literal)

theorem CaseFold.map_shortest (fold : CaseFold) (fill : Char) (search : List Char) :
    (shortest fill search).map fold.lower = shortest (fold.lower fill) (search.map fold.lower) := by
  have hp : fold.lower '%' = '%' := (fold.percent '%').mpr rfl
  have hu : fold.lower '_' = '_' := (fold.underscore '_').mpr rfl
  have hb : fold.lower '\\' = '\\' := (fold.backslash '\\').mpr rfl
  induction search using search_induction with
  | nil => rfl
  | percent search ih => rw [shortest_percent, ih, List.map_cons, hp, shortest_percent]
  | underscore search ih => rw [shortest_underscore, List.map_cons, ih, List.map_cons, hu, shortest_underscore]
  | lastBackslash =>
    rw [List.map_cons, hb]
    exact congrArg (fun c => [c]) hp
  | backslash c search ih =>
    rw [shortest_backslash, List.map_cons, ih, List.map_cons, List.map_cons, hb, shortest_backslash]
  | literal c search hc ih =>
    have hlower : Literal (fold.lower c) := fold.literal.mpr hc
    rw [shortest_literal fill hc, List.map_cons, ih, List.map_cons, shortest_literal _ hlower]

/-- The lower case of the letters A to Z. -/
def asciiLower (c : Char) : Char := if 65 ≤ c.toNat ∧ c.toNat ≤ 90 then Char.ofNat (c.toNat + 32) else c

/-- A character that is no letter is the lower case of itself alone. -/
theorem asciiLower_iff {d : Char} (h : d.toNat < 65 ∨ 90 < d.toNat ∧ d.toNat < 97) (c : Char) : asciiLower c = d ↔ c = d := by
  rw [asciiLower]
  split
  · rename_i hupper
    have hletters : ∀ n < 91, (Char.ofNat (n + 32)).toNat = n + 32 := by decide
    have hlower : (Char.ofNat (c.toNat + 32)).toNat = c.toNat + 32 := hletters c.toNat (by omega)
    constructor
    · rintro rfl
      omega
    · rintro rfl
      omega
  · exact Iff.rfl

/-- ASCII alone. -/
def CaseFold.ascii : CaseFold where
  lower := asciiLower
  percent := asciiLower_iff (by decide)
  underscore := asciiLower_iff (by decide)
  backslash := asciiLower_iff (by decide)

end Like
