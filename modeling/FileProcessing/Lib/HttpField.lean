/-!
# HTTP header values

The characters Node lets into a header value, and what a client reads in a `Content-Disposition`: a type, then parameters, each
with a token or a quoted string for its value.
-/

namespace HttpField

/-- The characters Node lets into a header value: tab, printable ASCII and the upper half of Latin-1. -/
def legalChar (c : Char) : Bool :=
  c == '\t' || (0x20 ≤ c.toNat && c.toNat ≤ 0x7E) || (0x80 ≤ c.toNat && c.toNat ≤ 0xFF)

/-- Node lets the value into a header. -/
def legal (value : List Char) : Bool := value.all legalChar

/-- A character of a token. -/
def tokenChar (c : Char) : Bool :=
  c.isAlphanum || "!#$%&*+-.^_|~".toList.contains c || c.toNat == 0x27 || c.toNat == 0x60

/-- Optional white space. -/
def blank (c : Char) : Bool := c == ' ' || c == '\t'

/-- What a quoted string stands for, read after its opening quote, and what follows its closing one. A backslash takes the next
character as it is. -/
def unquote : List Char → Option (List Char × List Char)
  | [] => none
  | '"' :: rest => some ([], rest)
  | '\\' :: c :: rest => (unquote rest).map (fun x => (c :: x.1, x.2))
  | ['\\'] => none
  | c :: rest => (unquote rest).map (fun x => (c :: x.1, x.2))

/-- The parameters of a header value, each after a semicolon; `fuel` bounds their number. -/
def params : Nat → List Char → Option (List (List Char × List Char))
  | 0, _ => none
  | fuel + 1, value =>
    match value.dropWhile blank with
    | [] => some []
    | ';' :: rest =>
      let param := rest.dropWhile blank
      let name := param.takeWhile tokenChar
      match param.dropWhile tokenChar with
      | '=' :: '"' :: quoted =>
        match unquote quoted with
        | none => none
        | some (text, rest) => (params fuel rest).map ((name, text) :: ·)
      | '=' :: token =>
        if token.takeWhile tokenChar = [] then none
        else (params fuel (token.dropWhile tokenChar)).map ((name, token.takeWhile tokenChar) :: ·)
      | _ => none
    | _ => none

/-- The `filename` of a `Content-Disposition`, where the header is well formed and has one. -/
def filename (value : List Char) : Option (List Char) :=
  (params (value.length + 1) (value.dropWhile tokenChar)).bind
    (fun ps => (ps.find? (fun p => p.1.map Char.toLower == "filename".toList)).map (·.2))

/-! ## Quoted strings -/

/-- A character that is neither a quote nor a backslash stands for itself. -/
theorem unquote_cons {c : Char} {rest : List Char} (hq : c ≠ '"') (hb : c ≠ '\\') :
    unquote (c :: rest) = (unquote rest).map (fun x => (c :: x.1, x.2)) := by
  rw [unquote]
  · exact hq
  · intro d rest' h
    exact absurd h hb
  · intro h
    exact absurd h hb

/-- What is read is shorter than what was written. -/
theorem length_unquote {quoted text rest : List Char} (h : unquote quoted = some (text, rest)) : text.length < quoted.length := by
  fun_induction unquote quoted generalizing text with
  | case1 => cases h
  | case2 rest' =>
    cases h
    exact Nat.succ_pos _
  | case3 c rest' ih =>
    obtain ⟨⟨text', rest''⟩, hu, heq⟩ := Option.map_eq_some_iff.mp h
    cases heq
    have := ih hu
    simp only [List.length_cons]
    omega
  | case4 => cases h
  | case5 c rest' _ _ _ ih =>
    obtain ⟨⟨text', rest''⟩, hu, heq⟩ := Option.map_eq_some_iff.mp h
    cases heq
    have := ih hu
    simp only [List.length_cons]
    omega

/-- A text without quotes and backslashes is read as it is. -/
theorem unquote_plain {text : List Char} (h : ∀ c ∈ text, c ≠ '"' ∧ c ≠ '\\') (rest : List Char) :
    unquote (text ++ '"' :: rest) = some (text, rest) := by
  induction text with
  | nil => rw [List.nil_append, unquote]
  | cons c text ih =>
    obtain ⟨hq, hb⟩ := h c List.mem_cons_self
    rw [List.cons_append, unquote_cons hq hb, ih (fun d hd => h d (List.mem_cons_of_mem c hd)), Option.map_some]

/-- Only such a text is. -/
theorem plain_of_unquote {text rest : List Char} (h : unquote (text ++ ['"']) = some (text, rest)) :
    ∀ c ∈ text, c ≠ '"' ∧ c ≠ '\\' := by
  induction text with
  | nil => exact fun c hc => by cases hc
  | cons c text ih =>
    by_cases hq : c = '"'
    · rw [hq, List.cons_append, unquote] at h
      cases h
    · by_cases hb : c = '\\'
      · -- a backslash takes a character with it, and the text read comes out too short
        cases hr : text ++ ['"'] with
        | nil => exact absurd hr (List.append_ne_nil_of_right_ne_nil text (List.cons_ne_nil _ _))
        | cons d rest' =>
          rw [hb, List.cons_append, hr, unquote] at h
          obtain ⟨⟨text', rest''⟩, hu, heq⟩ := Option.map_eq_some_iff.mp h
          cases heq
          have hlen := congrArg List.length hr
          have hshort := length_unquote hu
          simp only [List.length_append, List.length_cons, List.length_nil] at hlen
          omega
      · rw [List.cons_append, unquote_cons hq hb] at h
        obtain ⟨⟨text', rest''⟩, hu, heq⟩ := Option.map_eq_some_iff.mp h
        cases heq
        intro d hd
        rcases List.mem_cons.mp hd with rfl | hd
        · exact ⟨hq, hb⟩
        · exact ih hu d hd

/-! ## A header with a quoted file name -/

/-- The `filename` of a header that opens with it. -/
theorem filename_attachment (quoted : List Char) :
    filename ("attachment; filename=\"".toList ++ quoted) =
      (unquote quoted).bind (fun x => (params (quoted.length + 22) x.2).map (fun _ => x.1)) := by
  have hlen : ("attachment; filename=\"".toList ++ quoted).length + 1 = (quoted.length + 22) + 1 := by
    have hopen : "attachment; filename=\"".toList.length = 22 := by decide
    rw [List.length_append, hopen]
    omega
  have hrest : ("attachment; filename=\"".toList ++ quoted).dropWhile tokenChar = "; filename=\"".toList ++ quoted := by
    rfl
  have hparams : params (quoted.length + 22 + 1) ("; filename=\"".toList ++ quoted) =
      match unquote quoted with
      | none => none
      | some (text, rest) => (params (quoted.length + 22) rest).map (("filename".toList, text) :: ·) := by
    rfl
  rw [filename, hlen, hrest, hparams]
  cases unquote quoted with
  | none => rfl
  | some x =>
    obtain ⟨text, rest⟩ := x
    simp only [Option.bind_some]
    cases params (quoted.length + 22) rest with
    | none => rfl
    | some ps => rfl

end HttpField
