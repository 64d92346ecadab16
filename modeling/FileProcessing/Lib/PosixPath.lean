/-!
# The parts of a POSIX path

`basename` and `extname` of Node's `path.posix`, on the characters of a path. Trailing slashes do not count; the extension
starts at the last dot of the last component, unless nothing but that dot's component precedes it (`.bashrc`, `..`).
Then normalisation: what a path comes to once `.` and `..` are resolved.
-/

namespace PosixPath

/-- The last component of a path: what stands between its last slash and its trailing slashes. -/
def lastComponent (path : List Char) : List Char :=
  ((path.reverse.dropWhile (· == '/')).takeWhile (· != '/')).reverse

/-- The characters of a component after its last dot, and those before it; `none` when it has no dot. -/
def splitLastDot (comp : List Char) : Option (List Char × List Char) :=
  if '.' ∈ comp then
    some (((comp.reverse.dropWhile (· != '.')).drop 1).reverse, (comp.reverse.takeWhile (· != '.')).reverse)
  else none

/-- `path.extname`: the last component from its last dot on. Empty when there is no dot, when the dot opens the component,
and for the component `..`. -/
def extname (path : List Char) : List Char :=
  let comp := lastComponent path
  match splitLastDot comp with
  | none => []
  | some (before, after) => if before = [] ∨ comp = ['.', '.'] then [] else '.' :: after

/-- `path.basename` with a suffix: the last component, less the suffix when it ends in it and is longer. A suffix that runs
past the whole component leaves the trailing slashes on, and one that is the whole path leaves nothing, as in Node. -/
def basename (path suffix : List Char) : List Char :=
  let comp := lastComponent path
  if suffix = [] ∨ path.length < suffix.length then comp
  else if suffix = path then []
  else if suffix = comp then comp
  else if suffix <:+ comp then comp.take (comp.length - suffix.length)
  else if comp <:+ suffix then comp ++ path.reverse.takeWhile (· == '/')
  else comp

/-! ## Normalisation -/

/-- A component on the stack of those before it, the last of them first: an empty one and `.` stand for nothing, `..` takes
back the last one, and at the root nothing. -/
def push (stack : List (List Char)) (comp : List Char) : List (List Char) :=
  if comp = [] ∨ comp = ['.'] then stack
  else if comp = ['.', '.'] then stack.drop 1
  else comp :: stack

/-- The components a path from the root comes to. -/
def normalize (path : List Char) : List (List Char) := ((path.splitOn '/').foldl push []).reverse

/-- The components on top of the stack after those of a relative path; `none` when the path steps below the stack. -/
def climb : List (List Char) → List (List Char) → Option (List (List Char))
  | stack, [] => some stack
  | stack, comp :: comps => if stack = [] ∧ comp = ['.', '.'] then none else climb (push stack comp) comps

/-- The components a relative path comes to; `none` when it steps above its start. -/
def resolve (path : List Char) : Option (List (List Char)) := (climb [] (path.splitOn '/')).map List.reverse

/-- A component that stands for itself. -/
def Plain (comp : List Char) : Prop := comp ≠ [] ∧ comp ≠ ['.'] ∧ comp ≠ ['.', '.'] ∧ '/' ∉ comp

/-- The path of a directory, up to its last slash. -/
def dirPath (dir : List (List Char)) : List Char := dir.flatMap (· ++ ['/'])

theorem push_plain {stack : List (List Char)} {comp : List Char} (h : Plain comp) : push stack comp = comp :: stack := by
  obtain ⟨h₀, h₁, h₂, -⟩ := h
  simp [push, h₀, h₁, h₂]

/-- A component that takes nothing back from below the stack leaves what is below it. -/
theorem push_append {stack base : List (List Char)} {comp : List Char} (h : ¬ (stack = [] ∧ comp = ['.', '.'])) :
    push (stack ++ base) comp = push stack comp ++ base := by
  simp only [push]
  split
  · rfl
  · split
    · rename_i hup
      cases stack with
      | nil => exact absurd ⟨rfl, hup⟩ h
      | cons top stack => rfl
    · rfl

/-- A relative path that does not step above its start puts its components on those of the directory. -/
theorem foldl_push_climb {comps stack stack' : List (List Char)} (base : List (List Char)) (h : climb stack comps = some stack') :
    comps.foldl push (stack ++ base) = stack' ++ base := by
  induction comps generalizing stack with
  | nil =>
    rw [climb, Option.some.injEq] at h
    rw [List.foldl_nil, h]
  | cons comp comps ih =>
    rw [climb] at h
    split at h
    · cases h
    · rename_i hin
      rw [List.foldl_cons, push_append hin, ih h]

/-- One that does forgets the last component of the directory. -/
theorem foldl_push_escape {comps stack : List (List Char)} (base : List (List Char)) (a b : List Char) (h : climb stack comps = none) :
    comps.foldl push (stack ++ a :: base) = comps.foldl push (stack ++ b :: base) := by
  induction comps generalizing stack with
  | nil => cases h
  | cons comp comps ih =>
    rw [climb] at h
    split at h
    · rename_i hup
      obtain ⟨rfl, rfl⟩ := hup
      rfl
    · rename_i hin
      rw [List.foldl_cons, List.foldl_cons, push_append hin, push_append hin, ih h]

/-- The components of a directory are the first a path under it goes through. -/
theorem normalize_dirPath {dir : List (List Char)} (h : ∀ comp ∈ dir, Plain comp) (path : List Char) :
    normalize (dirPath dir ++ path) = ((path.splitOn '/').foldl push dir.reverse).reverse := by
  have hgo (stack : List (List Char)) :
      ((dirPath dir ++ path).splitOn '/').foldl push stack = (path.splitOn '/').foldl push (dir.reverse ++ stack) := by
    induction dir generalizing stack with
    | nil => rfl
    | cons comp dir ih =>
      have hcomp : Plain comp := h comp List.mem_cons_self
      have hpath : dirPath (comp :: dir) ++ path = comp ++ '/' :: (dirPath dir ++ path) := by simp [dirPath]
      rw [hpath, List.splitOn_append_cons_self_of_not_mem hcomp.2.2.2, List.foldl_cons, push_plain hcomp,
        ih (fun c hc => h c (List.mem_cons_of_mem comp hc)), List.reverse_cons, List.append_assoc, List.singleton_append]
  rw [normalize, hgo [], List.append_nil]

/-- A path under a directory that does not step above it comes to its own components under it. -/
theorem normalize_resolve {dir comps : List (List Char)} {path : List Char} (h : ∀ comp ∈ dir, Plain comp)
    (hr : resolve path = some comps) : normalize (dirPath dir ++ path) = dir ++ comps := by
  obtain ⟨stack, hc, rfl⟩ := Option.map_eq_some_iff.mp hr
  have hfold := foldl_push_climb dir.reverse hc
  rw [normalize_dirPath h, ← List.nil_append dir.reverse, hfold, List.reverse_append, List.reverse_reverse]

/-- One that does comes to the same under every sibling of the directory. -/
theorem normalize_escape {dir : List (List Char)} {a b path : List Char} (h : ∀ comp ∈ dir, Plain comp) (ha : Plain a)
    (hb : Plain b) (hr : resolve path = none) :
    normalize (dirPath (dir ++ [a]) ++ path) = normalize (dirPath (dir ++ [b]) ++ path) := by
  have hc : climb [] (path.splitOn '/') = none := Option.map_eq_none_iff.mp hr
  have hplain {c : List Char} (hp : Plain c) : ∀ comp ∈ dir ++ [c], Plain comp := by
    intro comp hmem
    rcases List.mem_append.mp hmem with hd | hd
    · exact h comp hd
    · exact List.mem_singleton.mp hd ▸ hp
  have hfold := foldl_push_escape dir.reverse a b hc
  simp only [List.nil_append] at hfold
  rw [normalize_dirPath (hplain ha), normalize_dirPath (hplain hb), List.reverse_append, List.reverse_append,
    List.reverse_singleton, List.reverse_singleton, List.singleton_append, List.singleton_append, hfold]

/-- A plain component comes to itself. -/
theorem resolve_plain {comp : List Char} (h : Plain comp) : resolve comp = some [comp] := by
  have hsplit : comp.splitOn '/' = [comp] := List.splitOn_eq_singleton h.2.2.2
  have hclimb : climb [] [comp] = some [comp] := by
    rw [climb, if_neg (fun hup => h.2.2.1 hup.2), push_plain h, climb]
  rw [resolve, hsplit, hclimb, Option.map_some, List.reverse_singleton]

/-! ## The parts of a component -/

theorem not_mem_lastComponent (path : List Char) : '/' ∉ lastComponent path := by
  intro hmem
  have hall := List.all_eq_true.mp List.all_takeWhile '/' (List.mem_reverse.mp hmem)
  exact absurd hall (by decide)

/-- A component is what stands before its last dot, the dot, and what follows it. -/
theorem splitLastDot_eq {comp before after : List Char} (h : splitLastDot comp = some (before, after)) :
    comp = before ++ '.' :: after := by
  rw [splitLastDot] at h
  split at h
  · rename_i hdot
    obtain ⟨rfl, rfl⟩ := Prod.mk.inj (Option.some.inj h)
    have hrev : '.' ∈ comp.reverse := List.mem_reverse.mpr hdot
    have hsplit : comp.reverse.takeWhile (· != '.') ++ comp.reverse.dropWhile (· != '.') = comp.reverse :=
      List.takeWhile_append_dropWhile
    cases hd : comp.reverse.dropWhile (· != '.') with
    | nil =>
      rw [hd, List.append_nil] at hsplit
      have hall := List.all_eq_true.mp List.all_takeWhile '.' (hsplit.symm ▸ hrev)
      exact absurd hall (by decide)
    | cons c rest =>
      have hc : c = '.' := by
        have hhead := List.head_dropWhile_not (fun x => x != '.') (hd ▸ List.cons_ne_nil c rest)
        simp only [hd, List.head_cons] at hhead
        simpa using hhead
      rw [hd, hc] at hsplit
      have hcomp := congrArg List.reverse hsplit
      rw [List.reverse_reverse] at hcomp
      simpa using hcomp.symm
  · cases h

/-- An extension closes the last component, after something. -/
theorem extname_suffix (path : List Char) :
    extname path = [] ∨ ∃ before, before ≠ [] ∧ lastComponent path = before ++ extname path := by
  cases hd : splitLastDot (lastComponent path) with
  | none => exact Or.inl (by simp only [extname, hd])
  | some parts =>
    obtain ⟨before, after⟩ := parts
    by_cases hb : before = [] ∨ lastComponent path = ['.', '.']
    · exact Or.inl (by simp only [extname, hd, if_pos hb])
    · have hext : extname path = '.' :: after := by simp only [extname, hd, if_neg hb]
      exact Or.inr ⟨before, fun hnil => hb (Or.inl hnil), by rw [hext]; exact splitLastDot_eq hd⟩

theorem not_mem_extname (path : List Char) : '/' ∉ extname path := by
  intro hmem
  rcases extname_suffix path with hnil | ⟨before, -, hcomp⟩
  · rw [hnil] at hmem
    cases hmem
  · exact not_mem_lastComponent path (hcomp ▸ List.mem_append_right before hmem)

/-- What is left of a path without its directories and its extension opens the last component. -/
theorem basename_extname_opens (path : List Char) : basename path (extname path) <+: lastComponent path := by
  rcases extname_suffix path with hnil | ⟨before, hb, hcomp⟩
  · have hwhole : basename path (extname path) = lastComponent path := by rw [basename, if_pos (Or.inl hnil)]
    exact ⟨[], by rw [hwhole, List.append_nil]⟩
  · have hlonger : (extname path).length < (lastComponent path).length := by
      rw [hcomp, List.length_append]
      have hpos : 0 < before.length := List.length_pos_iff.mpr hb
      omega
    have hshort : (lastComponent path).length ≤ path.length := by
      have hdrop := (List.dropWhile_suffix (l := path.reverse) (· == '/')).length_le
      have htake := (List.takeWhile_prefix (l := path.reverse.dropWhile (· == '/')) (· != '/')).length_le
      rw [List.length_reverse] at hdrop
      rw [lastComponent, List.length_reverse]
      omega
    simp only [basename]
    split
    · exact List.prefix_refl _
    · split
      · rename_i hpath
        have hlen := congrArg List.length hpath
        omega
      · split
        · exact List.prefix_refl _
        · split
          · exact List.take_prefix _ _
          · rename_i hsuffix
            exact absurd ⟨before, hcomp.symm⟩ hsuffix

theorem not_mem_basename_extname (path : List Char) : '/' ∉ basename path (extname path) :=
  fun hmem => not_mem_lastComponent path ((basename_extname_opens path).subset hmem)

end PosixPath
