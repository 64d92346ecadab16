import FileProcessing.Api.Replies
import FileProcessing.Lib.HttpField

/-!
# The name of a download

The route of a download puts the name of the file between two quotes as it is. Node lets the header through and a client reads
the name back just when the name is of characters a header may hold and none of them is a quote or a backslash.
-/

namespace FileProcessing

/-- The `Content-Disposition` of a download is a header value and its `filename` is the name of the file. -/
def NameDelivered (file : FileRow) : Prop :=
  ∃ value, ("Content-Disposition", value) ∈ downloadHeaders file ∧ HttpField.legal value.toList = true ∧
    HttpField.filename value.toList = some file.originalName.toList

/-- A name that needs no quoting. -/
def QuotesAsIs (name : String) : Prop := ∀ c ∈ name.toList, HttpField.legalChar c = true ∧ c ≠ '"' ∧ c ≠ '\\'

/-- The characters of the header. -/
theorem disposition_toList (file : FileRow) :
    (contentDisposition file).toList = "attachment; filename=\"".toList ++ (file.originalName.toList ++ ['"']) := by
  have happend (name : String) :
      ("attachment; filename=\"" ++ name ++ "\"").toList = "attachment; filename=\"".toList ++ (name.toList ++ ['"']) := by
    simp
  exact happend file.originalName

/-- The header is legal where its name is of legal characters. -/
theorem legal_disposition (name : String) :
    HttpField.legal ("attachment; filename=\"".toList ++ (name.toList ++ ['"'])) = true ↔
      ∀ c ∈ name.toList, HttpField.legalChar c = true := by
  have hopen : HttpField.legal "attachment; filename=\"".toList = true := by decide
  have hclose : HttpField.legal ['"'] = true := by decide
  simp only [HttpField.legal] at hopen hclose ⊢
  rw [List.all_append, List.all_append, hopen, hclose, Bool.true_and, Bool.and_true, List.all_eq_true]

/-- A download delivers the name of its file just when the name needs no quoting. -/
theorem nameDelivered_iff (file : FileRow) : NameDelivered file ↔ QuotesAsIs file.originalName := by
  constructor
  · rintro ⟨value, hmem, hlegal, hname⟩
    obtain rfl : value = contentDisposition file := by
      simpa [downloadHeaders] using hmem
    rw [disposition_toList] at hlegal hname
    rw [HttpField.filename_attachment] at hname
    obtain ⟨⟨text, rest⟩, hu, hp⟩ := Option.bind_eq_some_iff.mp hname
    obtain ⟨_, -, rfl⟩ := Option.map_eq_some_iff.mp hp
    intro c hc
    exact ⟨(legal_disposition _).mp hlegal c hc, HttpField.plain_of_unquote hu c hc⟩
  · intro h
    refine ⟨contentDisposition file, by simp [downloadHeaders], ?_, ?_⟩
    · rw [disposition_toList]
      exact (legal_disposition _).mpr (fun c hc => (h c hc).1)
    · rw [disposition_toList, HttpField.filename_attachment, HttpField.unquote_plain (fun c hc => (h c hc).2) []]
      rfl

/-- An upload whose name is beyond Latin-1. -/
def reportUpload : CreateUploadUrlBody where
  filename := "отчёт.txt"
  mimeType := "text/plain"
  size := 14
  filename_minLength := by decide
  filename_maxLength := by decide
  mimeType_minLength := by decide
  mimeType_maxLength := by decide
  size_minimum := by decide

/-- Not every accepted name is delivered: Node lets no Cyrillic letter into a header. -/
theorem not_nameDelivered :
    ¬ ∀ (body : CreateUploadUrlBody) (file : FileRow), file.originalName = body.filename → NameDelivered file := by
  intro h
  have hname := (nameDelivered_iff _).mp (h reportUpload (Trace.storedFile ⟨0⟩ "отчёт.txt") rfl)
  have hfirst : HttpField.legalChar 'о' = true := (hname 'о' (by decide)).1
  exact absurd hfirst (by decide)

end FileProcessing
