import FileProcessing.Api.Reads
import FileProcessing.Lib.Like

/-!
# Searching files by name

`findAllByUser` splices the search into a pattern as it is. It finds the files whose names contain the search, whatever the
case, just when the search has none of the three characters that mean something in a pattern, and no NUL, with which the database
refuses the statement.
-/

namespace FileProcessing

/-- A file of the user that is not deleted and whose name contains the search. -/
def named (fold : Like.CaseFold) (userId : Uuid) (search : String) (file : FileRow) : Bool :=
  file.userId = userId && file.status ≠ .deleted && Like.icontains fold file.originalName search

/-- The search finds the files whose names contain it, and counts them, whatever the table, the user and the page. -/
def FindsSubstring (fold : Like.CaseFold) (search : String) : Prop :=
  ∀ (db : Db) (userId : Uuid) (opts : ListOptions), opts.search = some search →
    FileRepository.matching (Like.ilike fold) db userId opts = db.files.select (named fold userId search) ∧
      FileRepository.countByUser (Like.ilike fold) db userId opts = .ok (db.files.select (named fold userId search)).length

/-- The pattern of a search, in lower case. -/
theorem pattern_lower (fold : Like.CaseFold) (search : String) :
    ("%" ++ search ++ "%").toList.map fold.lower = '%' :: (search.toList.map fold.lower ++ ['%']) := by
  have hp : fold.lower '%' = '%' := (fold.percent '%').mpr rfl
  simp [hp]

/-- What a search matches; the empty one is no search. -/
theorem listed_search {ilike : String → String → Bool} {userId : Uuid} {opts : ListOptions} {search : String}
    (ho : opts.search = some search) (file : FileRow) :
    FileRepository.listed ilike userId opts file =
      (decide (file.userId = userId) && decide (file.status ≠ .deleted) &&
        (decide (search = "") || ilike file.originalName ("%" ++ search ++ "%"))) := by
  simp only [FileRepository.listed, ho]
  split
  · rename_i h
    cases h
  · rename_i h
    cases h
    rfl
  · rename_i other hne h
    cases h
    have hsearch : search ≠ "" := fun heq => hne heq
    rw [decide_eq_false hsearch, Bool.false_or]

/-- A search without special characters is matched where it is contained. -/
theorem listed_literal (fold : Like.CaseFold) {search : String} (h : ∀ c ∈ search.toList, Like.Literal c) {opts : ListOptions}
    (ho : opts.search = some search) (userId : Uuid) :
    FileRepository.listed (Like.ilike fold) userId opts = named fold userId search := by
  funext file
  have hlike : Like.ilike fold file.originalName ("%" ++ search ++ "%") = Like.icontains fold file.originalName search := by
    rw [Like.ilike, Like.icontains, pattern_lower, Like.like_between (fold.forall_literal.mpr h)]
  rw [listed_search ho, named, hlike]
  by_cases hempty : search = ""
  · have hall : Like.icontains fold file.originalName search = true := by
      rw [Like.icontains, Like.contains_iff, hempty]
      exact ⟨[], _, rfl⟩
    rw [hall, Bool.or_true]
  · rw [decide_eq_false hempty, Bool.false_or]

/-- The database with one file. -/
def Db.withFile (file : FileRow) : Db := ⟨Table.empty, ⟨[file], List.nodup_singleton _⟩, Table.empty⟩

/-- One that has some finds a file whose name does not contain it. -/
theorem listed_special (fold : Like.CaseFold) {search : String} (h : ¬ ∀ c ∈ search.toList, Like.Literal c) (opts : ListOptions)
    (ho : opts.search = some search) : ∃ file : FileRow, file.userId = ⟨0⟩ ∧
      FileRepository.listed (Like.ilike fold) ⟨0⟩ opts file = true ∧ named fold ⟨0⟩ search file = false := by
  have hfill : fold.lower 'x' ≠ '_' := by
    rw [ne_eq, fold.underscore]
    decide
  have hspecial : ¬ ∀ c ∈ search.toList.map fold.lower, Like.Literal c := by
    rw [fold.forall_literal]
    exact h
  have hname : (String.ofList (Like.shortest 'x' search.toList)).toList.map fold.lower =
      Like.shortest (fold.lower 'x') (search.toList.map fold.lower) := by
    rw [String.toList_ofList, fold.map_shortest]
  refine ⟨Trace.storedFile ⟨0⟩ (String.ofList (Like.shortest 'x' search.toList)), rfl, ?_, ?_⟩
  · have hlike : Like.ilike fold (String.ofList (Like.shortest 'x' search.toList)) ("%" ++ search ++ "%") = true := by
      rw [Like.ilike, pattern_lower, hname, Like.like_percent, Like.anyTail_iff]
      exact ⟨[], _, rfl, Like.like_shortest _ _⟩
    rw [listed_search ho]
    simp [Trace.storedFile, Trace.uuid, hlike]
  · have hnot : Like.icontains fold (String.ofList (Like.shortest 'x' search.toList)) search = false := by
      rw [Like.icontains, hname]
      exact Like.not_contains_shortest hfill hspecial
    simp [named, Trace.storedFile, hnot]

/-- The database takes a search without a NUL. -/
theorem searchIn_of_search {opts : ListOptions} {search : String} (ho : opts.search = some search) :
    opts.searchIn = true ↔ nul ∉ search.toList := by
  simp [ListOptions.searchIn, ho, textIn]

/-- A search finds the files whose names contain it just when it has no special character and no NUL. -/
theorem findsSubstring_iff (fold : Like.CaseFold) (search : String) :
    FindsSubstring fold search ↔ (∀ c ∈ search.toList, Like.Literal c) ∧ nul ∉ search.toList := by
  constructor
  · intro hfinds
    constructor
    · by_contra h
      obtain ⟨file, -, hlisted, hnamed⟩ := listed_special fold h ⟨1, 1, some search⟩ rfl
      have hrows : [file].filter (FileRepository.listed (Like.ilike fold) ⟨0⟩ ⟨1, 1, some search⟩) =
          [file].filter (named fold ⟨0⟩ search) := (hfinds (Db.withFile file) ⟨0⟩ ⟨1, 1, some search⟩ rfl).1
      rw [List.filter_cons_of_pos hlisted, List.filter_cons_of_neg (by rw [hnamed]; exact Bool.false_ne_true)] at hrows
      cases hrows
    · have hcount := (hfinds Db.empty ⟨0⟩ ⟨1, 1, some search⟩ rfl).2
      unfold FileRepository.countByUser at hcount
      split at hcount
      · rename_i hsearch
        exact (searchIn_of_search rfl).mp hsearch
      · cases hcount
  · rintro ⟨hliteral, hnul⟩ db userId opts ho
    have hmatching : FileRepository.matching (Like.ilike fold) db userId opts = db.files.select (named fold userId search) := by
      rw [FileRepository.matching, listed_literal fold hliteral ho userId]
    refine ⟨hmatching, ?_⟩
    rw [FileRepository.countByUser, if_pos ((searchIn_of_search ho).mpr hnul), hmatching]

/-- Not every search finds the names that contain it, and no others: `50%` finds every name with a `50`. -/
theorem not_findsSubstring : ¬ ∀ search, search ≠ "" → FindsSubstring Like.CaseFold.ascii search := by
  intro h
  have hliteral := (findsSubstring_iff Like.CaseFold.ascii "50%").mp (h "50%" (by decide))
  exact (hliteral.1 '%' (by decide)).1 rfl

end FileProcessing
