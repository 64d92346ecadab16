import FileProcessing.Lemmas.Keys
import FileProcessing.Web.GuestToken

/-!
# The browser reads a guest's token

The token is encoded in the URL alphabet and read in the standard one, which differ in the digits 62 and 63; the text of the claims
never has one of these, whatever the id and the numbers are. So the browser reads the expiry the token was issued with, and no more
than the rounding of doubles stands between it and the comparison, which is exact for every time there is.
-/

namespace FileProcessing

open JsonText

/-! ## The characters of the claims -/

/-- The character is ASCII, and its last six bits are not those of 62 or 63. -/
def LowChar (c : Char) : Prop := Base64.Low c.toNat

instance (c : Char) : Decidable (LowChar c) := inferInstanceAs (Decidable (Base64.Low _))

/-- What is checked for each character of a text. -/
theorem forall_of_all {P : Char → Prop} [DecidablePred P] {text : List Char} (h : text.all (fun c => decide (P c)) = true) :
    ∀ c ∈ text, P c := by
  intro c hc
  exact of_decide_eq_true (List.all_eq_true.mp h c hc)

theorem lowChar_of_isDigit {c : Char} (h : c.isDigit = true) : LowChar c := by
  have hrange : 48 ≤ c.toNat ∧ c.toNat ≤ 57 := by
    simp only [Char.isDigit, Bool.and_eq_true, decide_eq_true_eq, UInt32.le_iff_toNat_le, ge_iff_le] at h
    exact h
  obtain ⟨hmin, hmax⟩ := hrange
  refine ⟨by omega, ?_⟩
  omega

theorem lowChar_naturalText (decimal zeros : Nat) : ∀ c ∈ naturalText decimal zeros, LowChar c := by
  have hdigits (n : Nat) : ∀ c ∈ Nat.toDigits 10 n, LowChar c := fun c hc => lowChar_of_isDigit (isDigit_toDigits n c hc)
  intro c hc
  simp only [naturalText] at hc
  split at hc
  · rcases List.mem_append.mp hc with hc | hc
    · exact hdigits decimal c hc
    · rw [List.eq_of_mem_replicate hc]
      decide
  · simp only [List.mem_append, List.mem_cons] at hc
    rcases hc with (hc | hc) | rfl | rfl | hc
    · exact hdigits decimal c (List.mem_of_mem_take hc)
    · split at hc
      · cases hc
      · rcases List.mem_cons.mp hc with rfl | hc
        · decide
        · exact hdigits decimal c (List.mem_of_mem_drop hc)
    · decide
    · decide
    · exact hdigits _ c hc

theorem lowChar_quoted {s : List Char} (h : ∀ c ∈ s, LowChar c) : ∀ c ∈ quoted s, LowChar c := by
  intro c hc
  simp only [quoted, List.mem_cons, List.mem_append, List.not_mem_nil, or_false] at hc
  rcases hc with rfl | hc | rfl
  · decide
  · exact h c hc
  · decide

/-- An object has the characters of its members, and its punctuation. -/
theorem lowChar_objectText {ms : List Member} (h : ∀ m ∈ ms, (∀ c ∈ m.name, LowChar c) ∧ ∀ c ∈ m.text, LowChar c) :
    ∀ c ∈ objectText ms, LowChar c := by
  have hmember {m : Member} (hm : m ∈ ms) : ∀ c ∈ m.chars, LowChar c := by
    intro c hc
    simp only [Member.chars, List.mem_cons, List.mem_append] at hc
    rcases hc with rfl | hc | rfl | rfl | hc
    · decide
    · exact (h m hm).1 c hc
    · decide
    · decide
    · exact (h m hm).2 c hc
  have hmembers : ∀ c ∈ membersText ms, LowChar c := by
    clear h
    induction ms with
    | nil =>
      intro c hc
      cases hc
    | cons m ms ih =>
      have hrest := ih (fun hm' => hmember (List.mem_cons_of_mem m hm'))
      cases ms with
      | nil => exact hmember List.mem_cons_self
      | cons m' ms =>
        intro c hc
        simp only [membersText, List.mem_append, List.mem_cons] at hc
        rcases hc with hc | rfl | hc
        · exact hmember List.mem_cons_self c hc
        · decide
        · exact hrest c hc
  intro c hc
  simp only [objectText, List.mem_cons, List.mem_append, List.not_mem_nil, or_false] at hc
  rcases hc with rfl | hc | rfl
  · decide
  · exact hmembers c hc
  · decide

/-- The characters of a UUID's text are such, and plain. -/
theorem lowChar_uuid (u : Uuid) : ∀ c ∈ u.chars, LowChar c ∧ Plain c := by
  intro c hc
  have hdigit : ∀ n < 16, LowChar (Hex.digit n) ∧ Plain (Hex.digit n) := by decide
  rcases Uuid.mem_chars hc with rfl | ⟨n, hn, rfl⟩
  · decide
  · exact hdigit n hn

section Token

variable (sub : Uuid) {iat exp : Nat} (iatText : Decimal iat) (expText : Decimal exp)

theorem lowChar_claims : ∀ c ∈ objectText (guestClaims sub iatText expText), LowChar c := by
  have hnames : (∀ c ∈ "sub".toList, LowChar c) ∧ (∀ c ∈ "role".toList, LowChar c) ∧ (∀ c ∈ "guest".toList, LowChar c) ∧
      (∀ c ∈ "iat".toList, LowChar c) ∧ ∀ c ∈ "exp".toList, LowChar c :=
    ⟨forall_of_all (by decide), forall_of_all (by decide), forall_of_all (by decide), forall_of_all (by decide),
      forall_of_all (by decide)⟩
  obtain ⟨hsub, hrole, hguest, hiat, hexp⟩ := hnames
  refine lowChar_objectText (fun m hm => ?_)
  simp only [guestClaims, List.mem_cons, List.not_mem_nil, or_false] at hm
  rcases hm with rfl | rfl | rfl | rfl
  · exact ⟨hsub, lowChar_quoted (fun c hc => (lowChar_uuid sub c hc).1)⟩
  · exact ⟨hrole, lowChar_quoted hguest⟩
  · exact ⟨hiat, lowChar_naturalText _ _⟩
  · exact ⟨hexp, lowChar_naturalText _ _⟩

theorem legible_claims : ∀ m ∈ guestClaims sub iatText expText, m.Legible := by
  have hnames : (∀ c ∈ "sub".toList, Plain c) ∧ (∀ c ∈ "role".toList, Plain c) ∧ (∀ c ∈ "guest".toList, Plain c) ∧
      (∀ c ∈ "iat".toList, Plain c) ∧ ∀ c ∈ "exp".toList, Plain c :=
    ⟨forall_of_all (by decide), forall_of_all (by decide), forall_of_all (by decide), forall_of_all (by decide),
      forall_of_all (by decide)⟩
  obtain ⟨hsub, hrole, hguest, hiat, hexp⟩ := hnames
  intro m hm
  simp only [guestClaims, List.mem_cons, List.not_mem_nil, or_false] at hm
  rcases hm with rfl | rfl | rfl | rfl
  · exact ⟨hsub, reads_string (fun c hc => (lowChar_uuid sub c hc).2)⟩
  · have hread := reads_string hguest
    rw [String.ofList_toList] at hread
    exact ⟨hrole, hread⟩
  · exact ⟨hiat, reads_natural iatText⟩
  · exact ⟨hexp, reads_natural expText⟩

end Token

/-! ## Decoding -/

/-- Such a text has one byte a character. -/
theorem utf8_low {text : List Char} (h : ∀ c ∈ text, LowChar c) :
    (text.flatMap String.utf8EncodeChar).map UInt8.toNat = text.map Char.toNat := by
  induction text with
  | nil => rfl
  | cons c text ih =>
    have hc : c.toNat < 128 := (h c List.mem_cons_self).1
    have hsize : c.utf8Size = 1 := by
      rw [Char.utf8Size_eq_one_iff, UInt32.le_iff_toNat_le]
      exact Nat.le_of_lt_succ hc
    have hbyte : c.val.toUInt8.toNat = c.toNat := by
      rw [UInt32.toNat_toUInt8]
      exact Nat.mod_eq_of_lt (Nat.lt_trans hc (by decide))
    rw [List.flatMap_cons, List.map_append, ih (fun d hd => h d (List.mem_cons_of_mem c hd)),
      String.utf8EncodeChar_eq_singleton hsize, List.map_singleton, List.map_cons, hbyte]
    rfl

/-- Such a text comes out of `atob` as it was. -/
theorem atob_low {text : List Char} (h : ∀ c ∈ text, LowChar c) : Base64.atob (base64urlText text) = some text := by
  rw [base64urlText, base64url, utf8_low h, Base64.atob_encodeUrl (List.forall_mem_map.mpr h), List.map_map]
  have hid : (Char.ofNat ∘ Char.toNat) = id := funext Char.ofNat_toNat
  rw [hid, List.map_id]

/-- No digit of the encoding is a dot. -/
theorem dot_not_mem_base64url (bytes : List UInt8) : '.' ∉ base64url bytes := by
  intro h
  obtain ⟨n, -, hn⟩ := List.mem_map.mp h
  have hlow : ∀ n < 62, Base64.urlDigit n ≠ '.' := by decide
  by_cases hlt : n < 62
  · exact hlow n hlt hn
  · rw [Base64.urlDigit, Base64.digit, if_neg (by omega), if_neg (by omega), if_neg hlt] at hn
    split at hn <;> cases hn

section Token

variable (hmac : List Char → List UInt8) (sub : Uuid) {iat exp : Nat} (iatText : Decimal iat) (expText : Decimal exp)

/-- The claims stand between the dots. -/
theorem payloadSegment_guest :
    payloadSegment (createGuestSession hmac sub iatText expText) = base64urlText (objectText (guestClaims sub iatText expText)) := by
  rw [payloadSegment, createGuestSession, String.toList_ofList, jwtSign]
  generalize base64url (hmac _) = signature
  have hdot (text : List Char) : '.' ∉ base64urlText text := dot_not_mem_base64url _
  rw [List.append_assoc, List.cons_append, List.splitOn_append_cons_self_of_not_mem (hdot _),
    List.splitOn_append_cons_self_of_not_mem (hdot _)]
  rfl

theorem createGuestSession_ne_empty : createGuestSession hmac sub iatText expText ≠ "" := by
  intro h
  have htext := congrArg String.toList h
  rw [createGuestSession, String.toList_ofList, jwtSign] at htext
  exact List.append_ne_nil_of_right_ne_nil _ (List.cons_ne_nil _ _) htext

/-- What the browser decodes and parses are the claims. -/
theorem parse_claims : ∃ fields, parse (objectText (guestClaims sub iatText expText)) = some (.object fields) ∧
    (Json.object fields).get "exp" = .json (.number (.round exp)) := by
  refine ⟨_, parse_objectText (List.cons_ne_nil _ _) (legible_claims sub iatText expText), ?_⟩
  simp [guestClaims, Json.setField, Json.get, Json.fields]

end Token

/-! ## The comparison -/

theorem limit_exact (now : TimeValue) :
    JsNumber.add (.finite now.ms) (.finite 60000) = some (.finite ((now.ms + 60000 : ℤ) : ℚ)) := by
  have hrange := now.range
  have hsum : (now.ms : ℚ) + 60000 = ((now.ms + 60000 : ℤ) : ℚ) := by
    push_cast
    rfl
  have hbits : |now.ms + 60000| ≤ 2 ^ 53 := by
    rw [Int.abs_eq_natAbs]
    omega
  rw [JsNumber.add, hsum, JsNumber.round_intCast hbits]

/-- The rounding does not change the comparison: up to `2 ^ 53` there is none, and what is beyond stays beyond every time there is. -/
theorem expires_exact (exp : ℕ) (now : TimeValue) :
    ∃ expires, (JsNumber.round exp).mul (.finite 1000) = some expires ∧
      expires.lt (.finite ((now.ms + 60000 : ℤ) : ℚ)) = decide ((exp : ℤ) * 1000 < now.ms + 60000) := by
  have hrange := now.range
  have hlimit : ((now.ms + 60000 : ℤ) : ℚ) ≤ 2 ^ 53 := by
    have hint : now.ms + 60000 ≤ 2 ^ 53 := by omega
    exact_mod_cast hint
  have hlate (h : 2 ^ 53 ≤ exp * 1000) {n : JsNumber} (hn : n.Huge) :
      n.lt (.finite ((now.ms + 60000 : ℤ) : ℚ)) = decide ((exp : ℤ) * 1000 < now.ms + 60000) := by
    rw [JsNumber.lt_finite_of_huge hn hlimit]
    exact (decide_eq_false (by omega)).symm
  by_cases hexp : exp ≤ 2 ^ 53
  · have hround : JsNumber.round exp = .finite exp := by
      have hint : |(exp : ℤ)| ≤ 2 ^ 53 := by
        rw [Int.abs_eq_natAbs]
        omega
      exact_mod_cast JsNumber.round_intCast hint
    have hproduct : (exp : ℚ) * 1000 = ((exp * 1000 : ℤ) : ℚ) := by
      push_cast
      rfl
    refine ⟨_, by rw [hround, JsNumber.mul], ?_⟩
    by_cases hlarge : 2 ^ 53 ≤ exp * 1000
    · exact hlate hlarge (JsNumber.huge_round (by exact_mod_cast hlarge))
    · have hint : |(exp * 1000 : ℤ)| ≤ 2 ^ 53 := by
        rw [Int.abs_eq_natAbs]
        omega
      rw [hproduct, JsNumber.round_intCast hint, JsNumber.lt]
      exact decide_eq_decide.mpr (by exact_mod_cast Iff.rfl)
  · have hhuge : (JsNumber.round exp).Huge := JsNumber.huge_round (by exact_mod_cast (by omega : 2 ^ 53 ≤ exp))
    have hlarge : 2 ^ 53 ≤ exp * 1000 := by omega
    cases hround : JsNumber.round exp with
    | finite x =>
      rw [hround] at hhuge
      have hx : (2 : ℚ) ^ 53 ≤ x := hhuge
      exact ⟨_, rfl, hlate hlarge (JsNumber.huge_round (by linarith))⟩
    | infinite negative =>
      rw [hround] at hhuge
      obtain rfl : negative = false := hhuge
      exact ⟨.infinite false, by simp [JsNumber.mul], hlate hlarge rfl⟩

/-- Whatever the id, the issue and the expiry: `atob` gives the text of the claims back, and the token is taken to be expired just when
it expires within a minute. -/
theorem guest_token_read (coerce : Json → Option JsNumber) (hmac : List Char → List UInt8) (sub : Uuid) {iat exp : ℕ}
    (iatText : Decimal iat) (expText : Decimal exp) (now : TimeValue) :
    Base64.atob (payloadSegment (createGuestSession hmac sub iatText expText)) =
        some (objectText (guestClaims sub iatText expText)) ∧
      (isTokenExpiredOrMissing coerce now (some (createGuestSession hmac sub iatText expText)) = true ↔
        (exp : ℤ) * 1000 < now.ms + 60000) := by
  have hatob : Base64.atob (payloadSegment (createGuestSession hmac sub iatText expText)) =
      some (objectText (guestClaims sub iatText expText)) := by
    rw [payloadSegment_guest]
    exact atob_low (lowChar_claims sub iatText expText)
  obtain ⟨fields, hparse, hget⟩ := parse_claims sub iatText expText
  obtain ⟨expires, hmul, hlt⟩ := expires_exact exp now
  refine ⟨hatob, ?_⟩
  rw [isTokenExpiredOrMissing, if_neg (createGuestSession_ne_empty hmac sub iatText expText), hatob, Option.bind_some, hparse]
  simp only [expiresSoon, hget, toNumber, Option.bind_some, hmul, limit_exact, hlt, decide_eq_true_eq]

end FileProcessing
