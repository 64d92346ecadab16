import FileProcessing.Lib.Doubles

/-!
# The text of a JSON value

`JSON.parse` by recursive descent, and what it makes of the texts `JSON.stringify` writes: of a string of plain characters, of a natural
number, and of an object with such members. A string is read as UTF-16 code units; one that is half a surrogate pair, which a Lean
character cannot be, is read as U+FFFD.
-/

namespace JsonText

/-- Whitespace. -/
def isSpace (c : Char) : Bool := c = ' ' || c = '\t' || c = '\n' || c = '\r'

/-- The text from its first character that is not whitespace. -/
def skipSpace (text : List Char) : List Char := text.dropWhile isSpace

/-! ## Strings -/

/-- The UTF-16 code units of a character. -/
def unitsOf (c : Char) : List Nat :=
  if c.toNat < 0x10000 then [c.toNat] else [0xD800 + (c.toNat - 0x10000) / 0x400, 0xDC00 + (c.toNat - 0x10000) % 0x400]

/-- The code unit is the first half of a surrogate pair. -/
def isHigh (u : Nat) : Bool := decide (0xD800 ≤ u) && decide (u < 0xDC00)

/-- The code unit is the second half of a surrogate pair. -/
def isLow (u : Nat) : Bool := decide (0xDC00 ≤ u) && decide (u < 0xE000)

/-- The character of a code unit alone. -/
def charOf (u : Nat) : Char := if isHigh u || isLow u then '\uFFFD' else Char.ofNat u

/-- The characters of code units. -/
def ofUnits : List Nat → List Char
  | u :: v :: rest =>
    if isHigh u && isLow v then Char.ofNat (0x10000 + (u - 0xD800) * 0x400 + (v - 0xDC00)) :: ofUnits rest
    else charOf u :: ofUnits (v :: rest)
  | [u] => [charOf u]
  | [] => []

/-- A hexadecimal digit, of either case. -/
def hexValue (c : Char) : Option Nat :=
  if '0' ≤ c ∧ c ≤ '9' then some (c.toNat - '0'.toNat)
  else if 'a' ≤ c ∧ c ≤ 'f' then some (c.toNat - 'a'.toNat + 10)
  else if 'A' ≤ c ∧ c ≤ 'F' then some (c.toNat - 'A'.toNat + 10)
  else none

/-- The code unit `\uabcd` names. -/
def hexUnit (a b c d : Char) : Option Nat := do
  let a ← hexValue a
  let b ← hexValue b
  let c ← hexValue c
  let d ← hexValue d
  return ((a * 16 + b) * 16 + c) * 16 + d

/-- The code unit an escape of one character names. -/
def escaped : Char → Option Nat
  | '"' => some 34
  | '\\' => some 92
  | '/' => some 47
  | 'b' => some 8
  | 'f' => some 12
  | 'n' => some 10
  | 'r' => some 13
  | 't' => some 9
  | _ => none

/-- The code units up to the closing quote, and what is behind it. -/
def stringUnits : List Char → Option (List Nat × List Char)
  | '"' :: rest => some ([], rest)
  | '\\' :: 'u' :: a :: b :: c :: d :: rest =>
    (hexUnit a b c d).bind (fun u => (stringUnits rest).map (fun read => (u :: read.1, read.2)))
  | '\\' :: c :: rest => (escaped c).bind (fun u => (stringUnits rest).map (fun read => (u :: read.1, read.2)))
  | c :: rest => if c.toNat < 0x20 then none else (stringUnits rest).map (fun read => (unitsOf c ++ read.1, read.2))
  | [] => none

/-- A string, from behind its opening quote. -/
def string (text : List Char) : Option (String × List Char) :=
  (stringUnits text).map (fun read => (String.ofList (ofUnits read.1), read.2))

/-! ## Numbers -/

/-- One digit or more. -/
def digits (text : List Char) : Option (List Char × List Char) :=
  if text.takeWhile Char.isDigit = [] then none else some (text.takeWhile Char.isDigit, text.dropWhile Char.isDigit)

/-- The digits behind the point, if there is one. -/
def fraction : List Char → Option (List Char × List Char)
  | '.' :: rest => digits rest
  | text => some ([], text)

/-- The exponent, if there is one. -/
def exponent (text : List Char) : Option (Int × List Char) :=
  let natural (text : List Char) : Option (Int × List Char) :=
    (digits text).map (fun read => ((Nat.ofDigitChars 10 read.1 0 : Int), read.2))
  match text with
  | 'e' :: '-' :: rest | 'E' :: '-' :: rest => (natural rest).map (fun read => (-read.1, read.2))
  | 'e' :: '+' :: rest | 'E' :: '+' :: rest | 'e' :: rest | 'E' :: rest => natural rest
  | _ => some (0, text)

/-- A number without its sign. -/
def unsigned (text : List Char) : Option (ℚ × List Char) := do
  let (whole, text) ← digits text
  if 1 < whole.length ∧ whole.head? = some '0' then none
  let (behind, text) ← fraction text
  let (power, text) ← exponent text
  return (Nat.ofDigitChars 10 (whole ++ behind) 0 * 10 ^ (power - behind.length), text)

/-- A number: the double nearest to it. -/
def number : List Char → Option (JsNumber × List Char)
  | '-' :: text => (unsigned text).map (fun read => (.round (-read.1), read.2))
  | text => (unsigned text).map (fun read => (.round read.1, read.2))

/-! ## Values -/

/-- A literal, from behind its first letter. -/
def literal (letters : String) (value : Json) (text : List Char) : Option (Json × List Char) :=
  if letters.toList.isPrefixOf text then some (value, text.drop letters.length) else none

mutual

/-- A value, and what is behind it. Every call is made behind a character that the caller has read. -/
def value : Nat → List Char → Option (Json × List Char)
  | 0, _ => none
  | fuel + 1, text =>
    match skipSpace text with
    | [] => none
    | c :: rest =>
      if c = '"' then (string rest).map (fun read => (.string read.1, read.2))
      else if c = '{' then
        match skipSpace rest with
        | '}' :: rest => some (.object [], rest)
        | rest => (members fuel rest).map
            (fun read => (.object (read.1.foldl (fun acc field => Json.setField field.1 field.2 acc) []), read.2))
      else if c = '[' then
        match skipSpace rest with
        | ']' :: rest => some (.array [], rest)
        | rest => (elements fuel rest).map (fun read => (.array read.1, read.2))
      else if c = 't' then literal "rue" (.bool true) rest
      else if c = 'f' then literal "alse" (.bool false) rest
      else if c = 'n' then literal "ull" .null rest
      else (number (c :: rest)).map (fun read => (.number read.1, read.2))

/-- The members of an object up to its closing brace, and what is behind it. -/
def members : Nat → List Char → Option (List (String × Json) × List Char)
  | 0, _ => none
  | fuel + 1, text =>
    match skipSpace text with
    | '"' :: text =>
      (string text).bind (fun (name, text) =>
        match skipSpace text with
        | ':' :: text =>
          (value fuel text).bind (fun (v, text) =>
            match skipSpace text with
            | ',' :: text => (members fuel text).map (fun read => ((name, v) :: read.1, read.2))
            | '}' :: text => some ([(name, v)], text)
            | _ => none)
        | _ => none)
    | _ => none

/-- The items of an array up to its closing bracket, and what is behind it. -/
def elements : Nat → List Char → Option (List Json × List Char)
  | 0, _ => none
  | fuel + 1, text =>
    (value fuel text).bind (fun (v, text) =>
      match skipSpace text with
      | ',' :: text => (elements fuel text).map (fun read => (v :: read.1, read.2))
      | ']' :: text => some ([v], text)
      | _ => none)

end

/-- `JSON.parse`; `none` when it throws. -/
def parse (text : List Char) : Option Json :=
  (value (text.length + 1) text).bind (fun read => if skipSpace read.2 = [] then some read.1 else none)

/-! ## What is written -/

/-- A natural number in the digits of a decimal and that many zeros, with an exponent where it has more than 21 digits. -/
def naturalText (decimal zeros : Nat) : List Char :=
  let whole := Nat.toDigits 10 decimal
  if whole.length + zeros ≤ 21 then whole ++ List.replicate zeros '0'
  else whole.take 1 ++ (if whole.length = 1 then [] else '.' :: whole.drop 1) ++
    'e' :: '+' :: Nat.toDigits 10 (whole.length + zeros - 1)

/-- A decimal of the double nearest to a natural number. The one that is written is the shortest of them. -/
structure Decimal (n : ℕ) where
  digits : ℕ
  zeros : ℕ
  zeros_of_zero : digits = 0 → zeros = 0
  nearest : JsNumber.round ((digits * 10 ^ zeros : ℕ) : ℚ) = JsNumber.round (n : ℚ)

/-- Its own digits are one. -/
instance (n : ℕ) : Inhabited (Decimal n) := ⟨⟨n, 0, fun _ => rfl, by rw [Nat.pow_zero, Nat.mul_one]⟩⟩

/-- A natural number as `JSON.stringify` writes it. -/
def Decimal.text {n : ℕ} (d : Decimal n) : List Char := naturalText d.digits d.zeros

/-- A string of plain characters, in quotes. -/
def quoted (s : List Char) : List Char := '"' :: (s ++ ['"'])

/-- A member of an object: its name, the text of its value, and the value. -/
structure Member where
  name : List Char
  text : List Char
  value : Json

/-- The text of a member. -/
def Member.chars (m : Member) : List Char := '"' :: (m.name ++ '"' :: ':' :: m.text)

/-- The texts of members, with commas between them. -/
def membersText : List Member → List Char
  | [] => []
  | [m] => m.chars
  | m :: ms => m.chars ++ ',' :: membersText ms

/-- The text of an object, without whitespace. -/
def objectText (ms : List Member) : List Char := '{' :: (membersText ms ++ ['}'])

/-! ## Reading a string -/

/-- A character that is written in a string as it is, and is one code unit. -/
def Plain (c : Char) : Prop := c ≠ '"' ∧ c ≠ '\\' ∧ 0x20 ≤ c.toNat ∧ c.toNat < 0xD800

instance (c : Char) : Decidable (Plain c) := inferInstanceAs (Decidable (_ ∧ _ ∧ _ ∧ _))

theorem ofUnits_cons {u : Nat} (hu : isHigh u = false) (rest : List Nat) : ofUnits (u :: rest) = charOf u :: ofUnits rest := by
  cases rest with
  | nil => rfl
  | cons v rest => simp [ofUnits, hu]

theorem ofUnits_plain {s : List Char} (h : ∀ c ∈ s, Plain c) : ofUnits (s.map Char.toNat) = s := by
  induction s with
  | nil => rfl
  | cons c s ih =>
    obtain ⟨-, -, -, hc⟩ := h c List.mem_cons_self
    have hhigh : isHigh c.toNat = false := by
      simp only [isHigh, Bool.and_eq_false_iff, decide_eq_false_iff_not]
      omega
    have hlow : isLow c.toNat = false := by
      simp only [isLow, Bool.and_eq_false_iff, decide_eq_false_iff_not]
      omega
    have hchar : charOf c.toNat = c := by
      rw [charOf, hhigh, hlow]
      exact Char.ofNat_toNat c
    rw [List.map_cons, ofUnits_cons hhigh, hchar, ih (fun d hd => h d (List.mem_cons_of_mem c hd))]

theorem stringUnits_plain {s : List Char} (h : ∀ c ∈ s, Plain c) (rest : List Char) :
    stringUnits (s ++ '"' :: rest) = some (s.map Char.toNat, rest) := by
  induction s with
  | nil => rfl
  | cons c s ih =>
    obtain ⟨hquote, hslash, hspace, hc⟩ := h c List.mem_cons_self
    have hrest := ih (fun d hd => h d (List.mem_cons_of_mem c hd))
    have hone : unitsOf c = [c.toNat] := if_pos (by omega)
    rw [List.cons_append, stringUnits, if_neg (by omega), hrest, hone]
    · rfl
    all_goals simp_all

/-- A string of plain characters is read as it is. -/
theorem string_plain {s : List Char} (h : ∀ c ∈ s, Plain c) (rest : List Char) :
    string (s ++ '"' :: rest) = some (String.ofList s, rest) := by
  rw [string, stringUnits_plain h, Option.map_some, ofUnits_plain h]

/-! ## Reading a natural number -/

/-- The text does not go on with a digit. -/
def NoDigit (text : List Char) : Prop := ∀ c ∈ text.head?, c.isDigit = false

theorem digits_append {ds rest : List Char} (hds : ∀ c ∈ ds, c.isDigit = true) (hne : ds ≠ []) (hrest : NoDigit rest) :
    digits (ds ++ rest) = some (ds, rest) := by
  have htake : rest.takeWhile Char.isDigit = [] := by
    cases rest with
    | nil => rfl
    | cons c rest => rw [List.takeWhile_cons, hrest c rfl, if_neg Bool.false_ne_true]
  have hdrop : rest.dropWhile Char.isDigit = rest := by
    cases rest with
    | nil => rfl
    | cons c rest => rw [List.dropWhile_cons, hrest c rfl, if_neg Bool.false_ne_true]
  rw [digits, List.takeWhile_append_of_pos hds, List.dropWhile_append_of_pos hds, htake, hdrop, List.append_nil, if_neg hne]

theorem isDigit_toDigits (n : Nat) : ∀ c ∈ Nat.toDigits 10 n, c.isDigit = true :=
  fun _ hc => Nat.isDigit_of_mem_toDigits (by decide) (by decide) hc

/-- A number other than zero does not begin with a zero. -/
theorem head_toDigits {n : Nat} (hn : 0 < n) : (Nat.toDigits 10 n).head? ≠ some '0' := by
  induction n using Nat.strongRecOn with
  | ind n ih =>
    by_cases hlt : n < 10
    · rw [Nat.toDigits_of_lt_base hlt, List.head?_singleton, ne_eq, Option.some.injEq, Nat.digitChar_eq_zero]
      omega
    · have hdiv := ih (n / 10) (by omega) (by omega)
      rw [Nat.toDigits_of_base_le (by decide) (by omega), List.head?_append_of_ne_nil _ Nat.toDigits_ne_nil]
      exact hdiv

/-- What follows a value in an object. -/
def Ends (text : List Char) : Prop := ∀ c ∈ text.head?, c = ',' ∨ c = '}'

theorem Ends.noDigit {text : List Char} (h : Ends text) : NoDigit text := by
  intro c hc
  rcases h c hc with rfl | rfl <;> decide

theorem Ends.fraction {text : List Char} (h : Ends text) : fraction text = some ([], text) := by
  cases text with
  | nil => rfl
  | cons c text => rcases h c rfl with rfl | rfl <;> rfl

theorem Ends.exponent {text : List Char} (h : Ends text) : exponent text = some (0, text) := by
  cases text with
  | nil => rfl
  | cons c text => rcases h c rfl with rfl | rfl <;> rfl

/-- An exponent that is written is read. -/
theorem exponent_power (n : Nat) {rest : List Char} (hrest : Ends rest) :
    exponent ('e' :: '+' :: Nat.toDigits 10 n ++ rest) = some ((n : Int), rest) := by
  have hdigits := digits_append (isDigit_toDigits n) Nat.toDigits_ne_nil hrest.noDigit
  rw [List.cons_append, List.cons_append, JsonText.exponent]
  simp only [hdigits, Option.map_some, Nat.ofDigitChars_ten_toDigits]

/-- A natural number without an exponent. -/
theorem unsigned_whole {decimal zeros : Nat} (hzero : decimal = 0 → zeros = 0) {rest : List Char} (hrest : Ends rest) :
    unsigned (Nat.toDigits 10 decimal ++ List.replicate zeros '0' ++ rest) = some (((decimal * 10 ^ zeros : ℕ) : ℚ), rest) := by
  have hall : ∀ c ∈ Nat.toDigits 10 decimal ++ List.replicate zeros '0', c.isDigit = true := by
    intro c hc
    rcases List.mem_append.mp hc with hc | hc
    · exact isDigit_toDigits decimal c hc
    · rw [List.eq_of_mem_replicate hc]
      rfl
  have hne : Nat.toDigits 10 decimal ++ List.replicate zeros '0' ≠ [] :=
    List.append_ne_nil_of_left_ne_nil Nat.toDigits_ne_nil _
  have hlead : ¬ (1 < (Nat.toDigits 10 decimal ++ List.replicate zeros '0').length ∧
      (Nat.toDigits 10 decimal ++ List.replicate zeros '0').head? = some '0') := by
    rintro ⟨hlen, hhead⟩
    rw [List.head?_append_of_ne_nil _ Nat.toDigits_ne_nil] at hhead
    rcases Nat.eq_zero_or_pos decimal with rfl | hpos
    · rw [hzero rfl] at hlen
      exact absurd hlen (by decide)
    · exact head_toDigits hpos hhead
  have hvalue : Nat.ofDigitChars 10 (Nat.toDigits 10 decimal ++ List.replicate zeros '0' ++ []) 0 = decimal * 10 ^ zeros := by
    rw [List.append_nil, Nat.ofDigitChars_append, Nat.ofDigitChars_ten_toDigits, Nat.ofDigitChars_replicate_zero, Nat.mul_comm]
  simp only [unsigned, digits_append hall hne hrest.noDigit, if_neg hlead, hrest.fraction, hrest.exponent, hvalue,
    Option.bind_eq_bind, Option.bind_some, Option.pure_def, List.length_nil, Nat.cast_zero, sub_zero, zpow_zero, mul_one]

/-- A natural number with an exponent. -/
theorem unsigned_power (d : Char) (behind : List Char) {decimal : Nat} (hdigits : Nat.toDigits 10 decimal = d :: behind) (zeros : Nat)
    {rest : List Char} (hrest : Ends rest) :
    unsigned ([d] ++ (if behind = [] then [] else '.' :: behind) ++ 'e' :: '+' :: Nat.toDigits 10 (behind.length + zeros) ++ rest) =
      some (((decimal * 10 ^ zeros : ℕ) : ℚ), rest) := by
  have hall : ∀ c ∈ d :: behind, c.isDigit = true := hdigits ▸ isDigit_toDigits decimal
  have hfirst : ∀ c ∈ [d], c.isDigit = true := fun c hc => hall c (List.mem_cons.mpr (Or.inl (List.mem_singleton.mp hc)))
  have hpower := exponent_power (behind.length + zeros) hrest
  have hnodigit : NoDigit ('e' :: '+' :: Nat.toDigits 10 (behind.length + zeros) ++ rest) := by
    rintro c hc
    cases hc
    rfl
  have hvalue : Nat.ofDigitChars 10 ([d] ++ behind) 0 = decimal := by
    rw [List.singleton_append, ← hdigits, Nat.ofDigitChars_ten_toDigits]
  have hshift : ((behind.length + zeros : ℕ) : ℤ) - behind.length = zeros := by omega
  have hlead : ¬ (1 < [d].length ∧ [d].head? = some '0') := by simp
  have hvalue_cast : (decimal : ℚ) * 10 ^ (zeros : ℤ) = ((decimal * 10 ^ zeros : ℕ) : ℚ) := by
    rw [zpow_natCast]
    push_cast
    rfl
  by_cases hbehind : behind = []
  · subst hbehind
    have hfraction : JsonText.fraction ('e' :: '+' :: Nat.toDigits 10 (0 + zeros) ++ rest) =
        some ([], 'e' :: '+' :: Nat.toDigits 10 (0 + zeros) ++ rest) := rfl
    rw [if_pos rfl, List.append_nil, List.append_assoc]
    simp only [List.length_nil] at hpower hnodigit hshift ⊢
    simp only [unsigned, digits_append hfirst (List.cons_ne_nil d []) hnodigit, if_neg hlead, hfraction, hpower,
      Option.bind_eq_bind, Option.bind_some, Option.pure_def, hvalue, List.length_nil, hshift, hvalue_cast]
  · have hbehind_digits : ∀ c ∈ behind, c.isDigit = true := fun c hc => hall c (List.mem_cons_of_mem d hc)
    have hpoint : NoDigit ('.' :: (behind ++ ('e' :: '+' :: Nat.toDigits 10 (behind.length + zeros) ++ rest))) := by
      rintro c hc
      cases hc
      rfl
    have hfraction : JsonText.fraction ('.' :: (behind ++ ('e' :: '+' :: Nat.toDigits 10 (behind.length + zeros) ++ rest))) =
        some (behind, 'e' :: '+' :: Nat.toDigits 10 (behind.length + zeros) ++ rest) :=
      digits_append hbehind_digits hbehind hnodigit
    rw [if_neg hbehind, List.append_assoc, List.append_assoc, List.cons_append (a := '.')]
    simp only [unsigned, digits_append hfirst (List.cons_ne_nil d []) hpoint, if_neg hlead, hfraction, hpower,
      Option.bind_eq_bind, Option.bind_some, Option.pure_def, hvalue, hshift, hvalue_cast]

/-- A number that begins with a digit has no sign. -/
theorem number_of_digit {c : Char} {text : List Char} (hc : c.isDigit = true) :
    number (c :: text) = (unsigned (c :: text)).map (fun read => (.round read.1, read.2)) := by
  rw [number]
  rintro rest heq
  cases heq
  cases hc

/-- A natural number is read as it is written. -/
theorem number_naturalText {decimal zeros : Nat} (hzero : decimal = 0 → zeros = 0) {rest : List Char} (hrest : Ends rest) :
    number (naturalText decimal zeros ++ rest) = some (.round ((decimal * 10 ^ zeros : ℕ) : ℚ), rest) := by
  cases hdigits : Nat.toDigits 10 decimal with
  | nil => exact absurd hdigits Nat.toDigits_ne_nil
  | cons d behind =>
    have hd : d.isDigit = true := isDigit_toDigits decimal d (hdigits ▸ List.mem_cons_self)
    by_cases hshort : (d :: behind).length + zeros ≤ 21
    · have hread := unsigned_whole hzero hrest
      rw [hdigits] at hread
      rw [naturalText, hdigits, if_pos hshort, List.cons_append, List.cons_append, number_of_digit hd]
      rw [List.cons_append, List.cons_append] at hread
      rw [hread, Option.map_some]
    · have hread := unsigned_power d behind hdigits zeros hrest
      have hpoint : (if (d :: behind).length = 1 then [] else '.' :: (d :: behind).drop 1) =
          if behind = [] then [] else '.' :: behind := by
        cases behind <;> simp
      have hpower : (d :: behind).length + zeros - 1 = behind.length + zeros := by
        rw [List.length_cons]
        omega
      rw [naturalText, hdigits, if_neg hshort, hpoint, hpower]
      simp only [List.take_succ_cons, List.take_zero, List.cons_append, List.nil_append] at hread ⊢
      rw [number_of_digit hd, hread, Option.map_some]

/-! ## Reading an object -/

/-- The text is that of the value, wherever it stands in an object. -/
def Reads (text : List Char) (v : Json) : Prop :=
  ∀ fuel rest, Ends rest → value (fuel + 1) (text ++ rest) = some (v, rest)

/-- The member is read: its name is plain, and its text is that of its value. -/
def Member.Legible (m : Member) : Prop := (∀ c ∈ m.name, Plain c) ∧ Reads m.text m.value

theorem reads_string {s : List Char} (h : ∀ c ∈ s, Plain c) : Reads (quoted s) (.string (String.ofList s)) := by
  intro fuel rest _
  have hskip : skipSpace ('"' :: (s ++ '"' :: rest)) = '"' :: (s ++ '"' :: rest) := rfl
  rw [quoted, List.cons_append, List.append_assoc, List.singleton_append, value, hskip]
  simp only [if_true, string_plain h, Option.map_some]

theorem reads_natural {n : ℕ} (d : Decimal n) : Reads d.text (.number (.round n)) := by
  intro fuel rest hrest
  have hnumber := number_naturalText d.zeros_of_zero hrest
  rw [d.nearest] at hnumber
  rw [Decimal.text]
  cases htext : naturalText d.digits d.zeros ++ rest with
  | nil =>
    rw [htext] at hnumber
    cases hnumber
  | cons c text =>
    rw [htext] at hnumber
    have hc : c.isDigit = true := by
      cases hdigits : Nat.toDigits 10 d.digits with
      | nil => exact absurd hdigits Nat.toDigits_ne_nil
      | cons first behind =>
        have hfirst : first.isDigit = true := isDigit_toDigits d.digits first (hdigits ▸ List.mem_cons_self)
        rw [naturalText, hdigits] at htext
        split at htext
        · simp only [List.cons_append, List.cons.injEq] at htext
          exact htext.1 ▸ hfirst
        · simp only [List.take_succ_cons, List.take_zero, List.cons_append, List.nil_append, List.cons.injEq] at htext
          exact htext.1 ▸ hfirst
    have hne (x : Char) (hx : x.isDigit = false) : c ≠ x := by
      rintro rfl
      rw [hx] at hc
      cases hc
    have hskip : skipSpace (c :: text) = c :: text := by
      have hspace : isSpace c = false := by
        simp [isSpace, hne ' ' rfl, hne '\t' rfl, hne '\n' rfl, hne '\r' rfl]
      rw [skipSpace, List.dropWhile_cons, hspace, if_neg Bool.false_ne_true]
    rw [value, hskip]
    simp only [hne '"' rfl, hne '{' rfl, hne '[' rfl, hne 't' rfl, hne 'f' rfl, hne 'n' rfl, if_false, hnumber, Option.map_some]

/-- A member and what follows it. -/
theorem members_chars {m : Member} (hm : m.Legible) (fuel : Nat) {rest : List Char} (hrest : Ends rest) :
    members (fuel + 2) (m.chars ++ rest) =
      match skipSpace rest with
      | ',' :: text => (members (fuel + 1) text).map (fun read => ((String.ofList m.name, m.value) :: read.1, read.2))
      | '}' :: text => some ([(String.ofList m.name, m.value)], text)
      | _ => none := by
  obtain ⟨hname, hvalue⟩ := hm
  have hopen (text : List Char) : skipSpace ('"' :: text) = '"' :: text := rfl
  have hcolon (text : List Char) : skipSpace (':' :: text) = ':' :: text := rfl
  have hchars : m.chars ++ rest = '"' :: (m.name ++ '"' :: ':' :: (m.text ++ rest)) := by
    simp [Member.chars]
  rw [hchars, members]
  simp only [hopen, string_plain hname, Option.bind_some, hcolon, hvalue fuel rest hrest]

/-- Members are read as they are written. -/
theorem members_text {ms : List Member} (hne : ms ≠ []) (h : ∀ m ∈ ms, m.Legible) {fuel : Nat} (hfuel : ms.length < fuel)
    (rest : List Char) :
    members fuel (membersText ms ++ '}' :: rest) = some (ms.map (fun m => (String.ofList m.name, m.value)), rest) := by
  induction ms generalizing fuel with
  | nil => exact absurd rfl hne
  | cons m ms ih =>
    obtain ⟨fuel, rfl⟩ : ∃ n, fuel = n + 2 := ⟨fuel - 2, by simp at hfuel; omega⟩
    have hm := h m List.mem_cons_self
    cases ms with
    | nil =>
      have hends : Ends ('}' :: rest) := by
        intro c hc
        cases hc
        exact Or.inr rfl
      rw [membersText, members_chars hm fuel hends]
      rfl
    | cons m' ms =>
      have hends : Ends (',' :: (membersText (m' :: ms) ++ '}' :: rest)) := by
        intro c hc
        cases hc
        exact Or.inl rfl
      have hrest := ih (List.cons_ne_nil m' ms) (fun x hx => h x (List.mem_cons_of_mem m hx))
        (show (m' :: ms).length < fuel + 1 by simp at hfuel ⊢; omega)
      have hskip : skipSpace (',' :: (membersText (m' :: ms) ++ '}' :: rest)) = ',' :: (membersText (m' :: ms) ++ '}' :: rest) := rfl
      rw [membersText, List.append_assoc, List.cons_append, members_chars hm fuel hends, hskip]
      · simp only [hrest, Option.map_some, List.map_cons]
      · exact List.cons_ne_nil m' ms

theorem length_membersText (ms : List Member) : ms.length ≤ (membersText ms).length := by
  induction ms with
  | nil => exact Nat.le_refl 0
  | cons m ms ih =>
    cases ms with
    | nil => simp [membersText, Member.chars]
    | cons m' ms =>
      simp only [membersText, Member.chars, List.length_append, List.length_cons] at ih ⊢
      omega

/-- An object with a member. -/
theorem value_members (fuel : Nat) {rest text : List Char} (hrest : skipSpace rest = '"' :: text) :
    value (fuel + 1) ('{' :: rest) = (members fuel ('"' :: text)).map
      (fun read => (.object (read.1.foldl (fun acc field => Json.setField field.1 field.2 acc) []), read.2)) := by
  have hopen : skipSpace ('{' :: rest) = '{' :: rest := rfl
  rw [value, hopen]
  simp only [Char.reduceEq, if_false, if_true, hrest]
  rfl

/-- An object is read as it is written. -/
theorem parse_objectText {ms : List Member} (hne : ms ≠ []) (h : ∀ m ∈ ms, m.Legible) :
    parse (objectText ms) = some (.object ((ms.map (fun m => (String.ofList m.name, m.value))).foldl
      (fun acc field => Json.setField field.1 field.2 acc) [])) := by
  have hlen := length_membersText ms
  have hread := members_text hne h (show ms.length < (objectText ms).length by
    simp only [objectText, List.length_cons, List.length_append]
    omega) []
  have hfirst : ∃ text, membersText ms ++ ['}'] = '"' :: text := by
    cases ms with
    | nil => exact absurd rfl hne
    | cons m ms => cases ms <;> exact ⟨_, rfl⟩
  obtain ⟨text, htext⟩ := hfirst
  have hskip : skipSpace (membersText ms ++ ['}']) = '"' :: text := by
    rw [htext]
    rfl
  rw [htext] at hread
  rw [parse, show objectText ms = '{' :: (membersText ms ++ ['}']) from rfl, value_members _ hskip]
  rw [objectText] at hread
  rw [hread]
  rfl

end JsonText
