import FileProcessing.Lib.Unicode
import FileProcessing.Types

/-!
# Object keys

The key of an upload names the UUID that was drawn for it, the key of an output the job it is the output of, and no key is
both: an upload's starts with a hexadecimal digit, an output's with `processed/`.
-/

namespace FileProcessing

/-- The text of a UUID has 36 characters. -/
theorem Uuid.length_chars (u : Uuid) : u.chars.length = 36 := by
  simp [Uuid.chars, Hex.length_digits]

/-- A UUID is determined by its text. -/
theorem Uuid.chars_inj {u v : Uuid} (h : u.chars = v.chars) : u = v := by
  have hu : (Hex.digits 32 u.bits.toNat).length = 32 := Hex.length_digits _ _
  have hv : (Hex.digits 32 v.bits.toNat).length = 32 := Hex.length_digits _ _
  unfold Uuid.chars at h
  generalize hd : Hex.digits 32 u.bits.toNat = d at h hu
  generalize he : Hex.digits 32 v.bits.toNat = e at h hv
  simp only [List.cons_append, List.append_assoc] at h
  obtain ⟨h1, h⟩ := List.append_inj h (by simp [hu, hv])
  obtain ⟨h2, h⟩ := List.append_inj (List.cons.inj h).2 (by simp [hu, hv])
  obtain ⟨h3, h⟩ := List.append_inj (List.cons.inj h).2 (by simp [hu, hv])
  obtain ⟨h4, h⟩ := List.append_inj (List.cons.inj h).2 (by simp [hu, hv])
  have h5 := (List.cons.inj h).2
  have glue {m n : Nat} (ht : (d.drop m).take n = (e.drop m).take n) (hr : d.drop (m + n) = e.drop (m + n)) :
      d.drop m = e.drop m := by
    rw [← List.take_append_drop n (d.drop m), ← List.take_append_drop n (e.drop m), List.drop_drop, List.drop_drop, ht, hr]
  have hde : d = e := @glue 0 8 h1 (glue h2 (glue h3 (glue h4 h5)))
  rw [← hd, ← he] at hde
  have hlt (w : Uuid) : w.bits.toNat < 16 ^ 32 := Nat.lt_of_lt_of_eq w.bits.isLt (by decide)
  have hbits : u.bits.toNat = v.bits.toNat := by
    have hmod := Hex.digits_inj hde
    rwa [Nat.mod_eq_of_lt (hlt u), Nat.mod_eq_of_lt (hlt v)] at hmod
  cases u
  cases v
  exact congrArg Uuid.mk (BitVec.eq_of_toNat_eq hbits)

theorem Uuid.text_inj {u v : Uuid} (h : u.text = v.text) : u = v := Uuid.chars_inj (String.ofList_injective h)

/-- A UUID's text starts with a digit, which is no `p`. -/
theorem Uuid.chars_head (u : Uuid) : ∃ c l, u.chars = c :: l ∧ c ≠ 'p' := by
  have hlen : (Hex.digits 32 u.bits.toNat).length = 32 := Hex.length_digits _ _
  unfold Uuid.chars
  generalize hd : Hex.digits 32 u.bits.toNat = d at hlen
  cases d with
  | nil => cases hlen
  | cons c l =>
    obtain ⟨n, hn, rfl⟩ := Hex.mem_digits (hd ▸ List.mem_cons_self : c ∈ Hex.digits 32 u.bits.toNat)
    refine ⟨Hex.digit n, _, rfl, ?_⟩
    have : ∀ n < 16, Hex.digit n ≠ 'p' := by decide
    exact this n hn

/-- The characters of a UUID's text are dashes and hexadecimal digits. -/
theorem Uuid.mem_chars {u : Uuid} {c : Char} (h : c ∈ u.chars) : c = '-' ∨ ∃ n < 16, c = Hex.digit n := by
  have hdigit : ∀ c ∈ Hex.digits 32 u.bits.toNat, c = '-' ∨ ∃ n < 16, c = Hex.digit n := fun c hc => Or.inr (Hex.mem_digits hc)
  unfold Uuid.chars at h
  generalize Hex.digits 32 u.bits.toNat = d at hdigit h
  simp only [List.mem_append, List.mem_cons] at h
  rcases h with ((((h | rfl | h) | rfl | h) | rfl | h) | rfl | h)
  · exact hdigit c (List.mem_of_mem_take h)
  · exact Or.inl rfl
  · exact hdigit c (List.mem_of_mem_drop (List.mem_of_mem_take h))
  · exact Or.inl rfl
  · exact hdigit c (List.mem_of_mem_drop (List.mem_of_mem_take h))
  · exact Or.inl rfl
  · exact hdigit c (List.mem_of_mem_drop (List.mem_of_mem_take h))
  · exact Or.inl rfl
  · exact hdigit c (List.mem_of_mem_drop h)

/-- A character that is neither a dash nor a hexadecimal digit is in no UUID's text. -/
theorem Uuid.not_mem_chars (u : Uuid) {c : Char} (hdash : c ≠ '-') (hdigit : ∀ n < 16, c ≠ Hex.digit n) : c ∉ u.chars := by
  intro h
  rcases Uuid.mem_chars h with rfl | ⟨n, hn, rfl⟩
  · exact hdash rfl
  · exact hdigit n hn rfl

/-! ## The two kinds of key -/

/-- The key of an upload, for which the UUID `random` was drawn. -/
def IsUploadKey (key : String) (random : Uuid) : Prop := ∃ userId ext, key = uploadKey userId random ext

/-- The key of an output of the job. -/
def IsOutputKey (key : String) (jobId : Uuid) : Prop := ∃ userId name, key = outputKey userId jobId name

theorem uploadKey_toList (userId random : Uuid) (ext : String) :
    (uploadKey userId random ext).toList = userId.chars ++ '/' :: (random.chars ++ ext.toList) := by
  simp [uploadKey, Uuid.text]

theorem outputKey_toList (userId jobId : Uuid) (name : String) :
    (outputKey userId jobId name).toList =
      "processed/".toList ++ (userId.chars ++ '/' :: (jobId.chars ++ '/' :: name.toList)) := by
  simp [outputKey, Uuid.text]

/-- The key of an upload determines the UUID drawn for it. -/
theorem IsUploadKey.inj {key : String} {r r' : Uuid} (h : IsUploadKey key r) (h' : IsUploadKey key r') : r = r' := by
  obtain ⟨u, ext, rfl⟩ := h
  obtain ⟨u', ext', h'⟩ := h'
  have hl := congrArg String.toList h'
  rw [uploadKey_toList, uploadKey_toList] at hl
  obtain ⟨-, hl⟩ := List.append_inj hl (by rw [Uuid.length_chars, Uuid.length_chars])
  obtain ⟨hr, -⟩ := List.append_inj (List.cons.inj hl).2 (by rw [Uuid.length_chars, Uuid.length_chars])
  exact Uuid.chars_inj hr

/-- The key of an output determines its job. -/
theorem IsOutputKey.inj {key : String} {j j' : Uuid} (h : IsOutputKey key j) (h' : IsOutputKey key j') : j = j' := by
  obtain ⟨u, name, rfl⟩ := h
  obtain ⟨u', name', h'⟩ := h'
  have hl := congrArg String.toList h'
  rw [outputKey_toList, outputKey_toList] at hl
  have hl := List.append_cancel_left hl
  obtain ⟨-, hl⟩ := List.append_inj hl (by rw [Uuid.length_chars, Uuid.length_chars])
  obtain ⟨hj, -⟩ := List.append_inj (List.cons.inj hl).2 (by rw [Uuid.length_chars, Uuid.length_chars])
  exact Uuid.chars_inj hj

/-- No key is both an upload's and an output's. -/
theorem IsUploadKey.not_output {key : String} {r j : Uuid} (h : IsUploadKey key r) : ¬ IsOutputKey key j := by
  obtain ⟨u, ext, rfl⟩ := h
  rintro ⟨u', name, h'⟩
  have hl := congrArg String.toList h'
  rw [uploadKey_toList, outputKey_toList] at hl
  obtain ⟨c, l, hc, hp⟩ := u.chars_head
  rw [hc] at hl
  exact hp (List.cons.inj hl).1

/-- A key of the user: of an upload or of an output of theirs. -/
def KeyOf (userId : Uuid) (key : String) : Prop :=
  (∃ random ext, key = uploadKey userId random ext) ∨ ∃ jobId name, key = outputKey userId jobId name

/-- The key of an upload determines its user. -/
theorem uploadKey_userId {u u' r r' : Uuid} {ext ext' : String} (h : uploadKey u r ext = uploadKey u' r' ext') : u = u' := by
  have hl := congrArg String.toList h
  rw [uploadKey_toList, uploadKey_toList] at hl
  exact Uuid.chars_inj (List.append_inj hl (by rw [Uuid.length_chars, Uuid.length_chars])).1

/-- The key of an output determines its user. -/
theorem outputKey_userId {u u' j j' : Uuid} {name name' : String} (h : outputKey u j name = outputKey u' j' name') : u = u' := by
  have hl := congrArg String.toList h
  rw [outputKey_toList, outputKey_toList] at hl
  have hl := List.append_cancel_left hl
  exact Uuid.chars_inj (List.append_inj hl (by rw [Uuid.length_chars, Uuid.length_chars])).1

/-- A key is of one user. -/
theorem KeyOf.inj {u v : Uuid} {key : String} (h : KeyOf u key) (h' : KeyOf v key) : u = v := by
  rcases h with ⟨r, ext, rfl⟩ | ⟨j, name, rfl⟩ <;> rcases h' with ⟨r', ext', h'⟩ | ⟨j', name', h'⟩
  · exact uploadKey_userId h'
  · exact absurd ⟨v, name', h'⟩ (IsUploadKey.not_output ⟨u, ext, rfl⟩)
  · exact absurd ⟨u, name, h'.symm⟩ (IsUploadKey.not_output ⟨v, ext', rfl⟩)
  · exact outputKey_userId h'

/-! ## The length of a key -/

/-- The text of a UUID is of ASCII characters. -/
theorem Uuid.ascii_chars (u : Uuid) : ∀ c ∈ u.chars, c.utf8Size = 1 := by
  intro c hc
  have hall : ∀ n < 16, (Hex.digit n).utf8Size = 1 := by decide
  rcases Uuid.mem_chars hc with rfl | ⟨n, hn, rfl⟩
  · decide
  · exact hall n hn

/-- The text of a UUID takes 36 bytes. -/
theorem Uuid.length_utf8Bytes (u : Uuid) : (utf8Bytes u.text).length = 36 := by
  have hascii : ∀ c ∈ u.text.toList, c.utf8Size = 1 := by
    rw [Uuid.text, String.toList_ofList]
    exact u.ascii_chars
  rw [length_utf8Bytes_of_ascii hascii, Uuid.text, String.length_ofList, u.length_chars]

/-- The key of an output is 84 bytes longer than its name. -/
theorem length_outputKey (u j : Uuid) (name : String) :
    (utf8Bytes (outputKey u j name)).length = 84 + (utf8Bytes name).length := by
  have hprefix : (utf8Bytes "processed/").length = 10 := by decide
  have hslash : (utf8Bytes "/").length = 1 := by decide
  simp only [outputKey, utf8Bytes_append, List.length_append, Uuid.length_utf8Bytes, hprefix, hslash]

end FileProcessing
