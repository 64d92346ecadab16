import FileProcessing.Api.Schemas
import FileProcessing.Lemmas.Keys
import FileProcessing.Lemmas.Attempts

/-!
# Where object keys come to

Three producers make keys from an original name: an upload takes its extension, a conversion its stem and a new extension, a
compression the name as it is. The first two drop the directories of the name; the third leaves them in, and a name that steps
out of the job's directory takes the output with it.
-/

namespace FileProcessing

/-- What a key is made for: a job of a user, or an upload of theirs by the UUID drawn for it. -/
inductive KeyOwner where
  | job (userId jobId : Uuid)
  | upload (userId random : Uuid)
  deriving DecidableEq, Repr

/-- The directory the keys of an owner belong in. -/
def KeyOwner.dir : KeyOwner → List (List Char)
  | .job userId jobId => ["processed".toList, userId.chars, jobId.chars]
  | .upload userId _ => [userId.chars]

/-- Different jobs, different uploads, or a job and an upload. -/
def KeyOwner.Apart : KeyOwner → KeyOwner → Prop
  | .job _ j, .job _ j' => j ≠ j'
  | .upload _ r, .upload _ r' => r ≠ r'
  | _, _ => True

/-- The keys made from an original name. -/
inductive KeyMade (name : String) : KeyOwner → String → Prop
  | compress (data : JobPayload) (inputFile : FileRow) (h : inputFile.originalName = name) :
    KeyMade name (.job data.userId data.jobId) (outputKey data.userId data.jobId ((compressProcessor data).outputName inputFile))
  | convert (data : JobPayload) (inputFile : FileRow) (h : inputFile.originalName = name) :
    KeyMade name (.job data.userId data.jobId) (outputKey data.userId data.jobId ((convertProcessor data).outputName inputFile))
  | upload (cfg : Config) (userId random : Uuid) (input : FileService.CreateUploadUrlInput) (key : String)
      (h : input.filename = name) (hs : FileService.createUploadUrl.start cfg userId input random = .create key) :
    KeyMade name (.upload userId random) key

/-- The key comes to one component under the directory of its owner. -/
def Confined (o : KeyOwner) (key : String) : Prop := ∃ comp, PosixPath.normalize key.toList = o.dir ++ [comp]

/-- The keys made from the two names are confined, and those of different owners stay apart. -/
structure KeysConfined (n m : String) : Prop where
  left : ∀ o key, KeyMade n o key → Confined o key
  right : ∀ o key, KeyMade m o key → Confined o key
  apart : ∀ o o' key key', KeyMade n o key → KeyMade m o' key' → o.Apart o' →
    PosixPath.normalize key.toList ≠ PosixPath.normalize key'.toList

/-- Read as a relative path, the name does not step above its start and comes to one component. -/
def OneComponent (name : String) : Prop := ∃ comp, PosixPath.resolve name.toList = some [comp]

/-! ## Keys as paths -/

/-- The text of a UUID is a component that stands for itself. -/
theorem Uuid.plain_chars (u : Uuid) : PosixPath.Plain u.chars := by
  have hlen := u.length_chars
  refine ⟨fun h => ?_, fun h => ?_, fun h => ?_, fun hslash => ?_⟩
  · rw [h] at hlen
    cases hlen
  · rw [h] at hlen
    cases hlen
  · rw [h] at hlen
    cases hlen
  · exact u.not_mem_chars (by decide) (by decide) hslash

theorem KeyOwner.plain_dir (o : KeyOwner) : ∀ comp ∈ o.dir, PosixPath.Plain comp := by
  have hprocessed : PosixPath.Plain "processed".toList := by
    refine ⟨?_, ?_, ?_, ?_⟩ <;> decide
  cases o with
  | job userId jobId =>
    refine List.forall_mem_cons.mpr ⟨hprocessed, List.forall_mem_cons.mpr ⟨userId.plain_chars, ?_⟩⟩
    exact List.forall_mem_singleton.mpr jobId.plain_chars
  | upload userId random =>
    exact List.forall_mem_singleton.mpr userId.plain_chars

/-- The key of an output is its name under the directory of the job. -/
theorem outputKey_dirPath (u j : Uuid) (name : String) :
    (outputKey u j name).toList = PosixPath.dirPath (KeyOwner.job u j).dir ++ name.toList := by
  rw [outputKey_toList]
  simp [PosixPath.dirPath, KeyOwner.dir]

/-- The key of an upload is its UUID and the extension under the directory of the user. -/
theorem uploadKey_dirPath (u r : Uuid) (ext : String) :
    (uploadKey u r ext).toList = PosixPath.dirPath (KeyOwner.upload u r).dir ++ (r.chars ++ ext.toList) := by
  rw [uploadKey_toList]
  simp [PosixPath.dirPath, KeyOwner.dir]

/-- A job's key comes to what its name comes to, under the directory of the job. -/
theorem outputKey_confined {u j : Uuid} {name : String} {comp : List Char} (h : PosixPath.resolve name.toList = some [comp]) :
    PosixPath.normalize (outputKey u j name).toList = (KeyOwner.job u j).dir ++ [comp] := by
  rw [outputKey_dirPath]
  exact PosixPath.normalize_resolve (KeyOwner.job u j).plain_dir h

/-- An upload's key is its UUID and the extension, under the directory of the user. -/
theorem uploadKey_confined (u r : Uuid) (name : String) :
    PosixPath.normalize (uploadKey u r (extname name)).toList =
      (KeyOwner.upload u r).dir ++ [r.chars ++ (extname name).toList] := by
  have hplain : PosixPath.Plain (r.chars ++ (extname name).toList) := by
    have hlen : 36 ≤ (r.chars ++ (extname name).toList).length := by
      rw [List.length_append, r.length_chars]
      omega
    refine ⟨fun h => ?_, fun h => ?_, fun h => ?_, fun hslash => ?_⟩
    · rw [h] at hlen
      exact absurd hlen (by decide)
    · rw [h] at hlen
      exact absurd hlen (by decide)
    · rw [h] at hlen
      exact absurd hlen (by decide)
    · rcases List.mem_append.mp hslash with hr | hext
      · exact r.plain_chars.2.2.2 hr
      · rw [extname, String.toList_ofList] at hext
        exact PosixPath.not_mem_extname name.toList hext
  rw [uploadKey_dirPath]
  exact PosixPath.normalize_resolve (KeyOwner.upload u r).plain_dir (PosixPath.resolve_plain hplain)

/-- The name of a conversion is one component, whatever the name of the input. -/
theorem convert_oneComponent (data : JobPayload) (inputFile : FileRow) :
    OneComponent ((convertProcessor data).outputName inputFile) := by
  have hext : ∀ type, (formatConfig type).1 ∈ ["png", "webp", "jpg"] := by
    intro type
    simp only [formatConfig]
    split
    · decide
    · split <;> decide
  have hchars : ((convertProcessor data).outputName inputFile).toList =
      PosixPath.basename inputFile.originalName.toList (PosixPath.extname inputFile.originalName.toList) ++
        '.' :: (formatConfig data.type).1.toList := by
    simp [convertProcessor, basename, extname]
  have hlong : ∀ ext ∈ ["png", "webp", "jpg"], 3 ≤ ext.toList.length ∧ '/' ∉ ext.toList := by decide
  obtain ⟨hlen, hslash⟩ := hlong _ (hext data.type)
  rw [OneComponent, hchars]
  generalize hstem : PosixPath.basename inputFile.originalName.toList (PosixPath.extname inputFile.originalName.toList) = stem
  refine ⟨_, PosixPath.resolve_plain ⟨fun h => ?_, fun h => ?_, fun h => ?_, fun hmem => ?_⟩⟩
  · simp at h
  · have := congrArg List.length h
    simp at this
    omega
  · have := congrArg List.length h
    simp at this
    omega
  · rcases List.mem_append.mp hmem with hs | hs
    · exact PosixPath.not_mem_basename_extname inputFile.originalName.toList (hstem ▸ hs)
    · rcases List.mem_cons.mp hs with hdot | hs
      · exact absurd hdot (by decide)
      · exact hslash hs

/-- What a key made for an owner comes to: a component under the owner's directory, which for an upload opens with its UUID. -/
def KeyOwner.Holds (o : KeyOwner) (comps : List (List Char)) : Prop :=
  ∃ comp, comps = o.dir ++ [comp] ∧ ∀ u r, o = .upload u r → r.chars <+: comp

/-- The keys made from a name of one component. -/
theorem KeyMade.holds {n : String} (hn : OneComponent n) {o : KeyOwner} {key : String} (h : KeyMade n o key) :
    o.Holds (PosixPath.normalize key.toList) := by
  cases h with
  | compress data inputFile h =>
    obtain ⟨comp, hcomp⟩ := hn
    refine ⟨comp, outputKey_confined ?_, fun u r ho => by cases ho⟩
    rw [show (compressProcessor data).outputName inputFile = n from h, hcomp]
  | convert data inputFile h =>
    obtain ⟨comp, hcomp⟩ := convert_oneComponent data inputFile
    exact ⟨comp, outputKey_confined hcomp, fun u r ho => by cases ho⟩
  | upload cfg userId random input key h hs =>
    refine ⟨random.chars ++ (extname input.filename).toList, ?_, fun u r ho => ?_⟩
    · rw [createUploadUrl_start hs, uploadKey_confined]
    · cases ho
      exact List.prefix_append _ _

/-- Owners that are apart hold no path in common. -/
theorem KeyOwner.Apart.disjoint {o o' : KeyOwner} (h : o.Apart o') {comps : List (List Char)} (ho : o.Holds comps) :
    ¬ o'.Holds comps := by
  obtain ⟨comp, rfl, hr⟩ := ho
  rintro ⟨comp', heq, hr'⟩
  cases o with
  | job u j =>
    cases o' with
    | job u' j' =>
      simp only [KeyOwner.dir, List.cons_append, List.nil_append, List.cons.injEq, true_and, and_true] at heq
      exact h (Uuid.chars_inj heq.2.1)
    | upload u' r' =>
      have hlen := congrArg List.length heq
      exact absurd hlen (by simp [KeyOwner.dir])
  | upload u r =>
    cases o' with
    | job u' j' =>
      have hlen := congrArg List.length heq
      exact absurd hlen (by simp [KeyOwner.dir])
    | upload u' r' =>
      simp only [KeyOwner.dir, List.singleton_append, List.cons.injEq, and_true] at heq
      obtain ⟨-, rfl⟩ := heq
      obtain ⟨ext, hext⟩ := hr u r rfl
      obtain ⟨ext', hext'⟩ := hr' u' r' rfl
      rw [← hext'] at hext
      exact h (Uuid.chars_inj (List.append_inj hext (by rw [Uuid.length_chars, Uuid.length_chars])).1)

/-! ## A name that is not one component -/

/-- A job of a user. -/
def compressJob (jobId : Uuid) : JobPayload :=
  { jobId := jobId, fileId := ⟨0⟩, type := "compress", userId := ⟨0⟩, options := none }

/-- An input of that name. -/
def inputNamed (name : String) : FileRow :=
  { id := ⟨0⟩, userId := ⟨0⟩, originalName := name, mimeType := "image/png", size := 1, storagePath := "", status := .ready,
    createdAt := 0, updatedAt := 0 }

/-- The key of a compression of that name, for every job. -/
theorem keyMade_compress (name : String) (j : Uuid) : KeyMade name (.job ⟨0⟩ j) (outputKey ⟨0⟩ j name) :=
  KeyMade.compress (compressJob j) (inputNamed name) rfl

/-- A name that steps above its start comes to the same object for every job of a user. -/
theorem outputKey_escape {name : String} (hr : PosixPath.resolve name.toList = none) (u j j' : Uuid) :
    PosixPath.normalize (outputKey u j name).toList = PosixPath.normalize (outputKey u j' name).toList := by
  have hsplit (x : Uuid) : (KeyOwner.job u x).dir = ["processed".toList, u.chars] ++ [x.chars] := by
    rw [KeyOwner.dir, List.cons_append, List.cons_append, List.nil_append]
  have hplain := (KeyOwner.job u j).plain_dir
  rw [hsplit j, List.forall_mem_append] at hplain
  rw [outputKey_dirPath, outputKey_dirPath, hsplit j, hsplit j']
  exact PosixPath.normalize_escape hplain.1 j.plain_chars j'.plain_chars hr

/-- Where the compressions of a name are confined, whatever the job, the name is one component. -/
theorem oneComponent_of_confined {name : String} (h : ∀ o key, KeyMade name o key → Confined o key) : OneComponent name := by
  cases hr : PosixPath.resolve name.toList with
  | some comps =>
    -- the components of the name follow those of the directory, and there is one
    obtain ⟨comp, hcomp⟩ := h _ _ (keyMade_compress name ⟨0⟩)
    rw [outputKey_dirPath, PosixPath.normalize_resolve (KeyOwner.job ⟨0⟩ ⟨0⟩).plain_dir hr] at hcomp
    exact ⟨comp, hr.trans (congrArg some (List.append_cancel_left hcomp))⟩
  | none =>
    -- a name that steps out comes to the same path for two jobs, which cannot be under the directories of both
    obtain ⟨comp, hcomp⟩ := h _ _ (keyMade_compress name ⟨0⟩)
    obtain ⟨comp', hcomp'⟩ := h _ _ (keyMade_compress name ⟨1⟩)
    have hsame : (KeyOwner.job ⟨0⟩ ⟨0⟩).dir ++ [comp] = (KeyOwner.job ⟨0⟩ ⟨1⟩).dir ++ [comp'] := by
      rw [← hcomp, ← hcomp']
      exact outputKey_escape hr ⟨0⟩ ⟨0⟩ ⟨1⟩
    simp only [KeyOwner.dir, List.cons_append, List.nil_append, List.cons.injEq, true_and, and_true] at hsame
    exact absurd (Uuid.chars_inj hsame.1) (by decide)

/-- The keys made from two names are confined and apart just when each name, read as a relative path, comes to one component
without stepping above its start. -/
theorem keysConfined_iff (n m : String) : KeysConfined n m ↔ OneComponent n ∧ OneComponent m := by
  constructor
  · intro h
    exact ⟨oneComponent_of_confined h.left, oneComponent_of_confined h.right⟩
  · rintro ⟨hn, hm⟩
    refine ⟨fun o key hk => ?_, fun o key hk => ?_, fun o o' key key' hk hk' hapart heq => ?_⟩
    · obtain ⟨comp, hcomp, -⟩ := hk.holds hn
      exact ⟨comp, hcomp⟩
    · obtain ⟨comp, hcomp, -⟩ := hk.holds hm
      exact ⟨comp, hcomp⟩
    · exact hapart.disjoint (hk.holds hn) (heq ▸ hk'.holds hm)

/-- An upload whose name leads out of the directory of a job. -/
def escapingUpload : CreateUploadUrlBody where
  filename := "../photo.png"
  mimeType := "image/png"
  size := 1
  filename_minLength := by decide
  filename_maxLength := by decide
  mimeType_minLength := by decide
  mimeType_maxLength := by decide
  size_minimum := by decide

/-- Not every accepted name keeps its keys confined: two compressions of `../photo.png` for one user write one object. -/
theorem not_keysConfined : ¬ ∀ a b : CreateUploadUrlBody, KeysConfined a.filename b.filename := by
  intro h
  have hkeys : KeysConfined "../photo.png" "../photo.png" := h escapingUpload escapingUpload
  have hnone : PosixPath.resolve "../photo.png".toList = none := by decide
  have hjobs : (KeyOwner.job ⟨0⟩ ⟨0⟩).Apart (KeyOwner.job ⟨0⟩ ⟨1⟩) := by
    intro heq
    exact absurd heq (by decide)
  exact hkeys.apart _ _ _ _ (keyMade_compress _ ⟨0⟩) (keyMade_compress _ ⟨1⟩) hjobs (outputKey_escape hnone ⟨0⟩ ⟨0⟩ ⟨1⟩)

end FileProcessing
