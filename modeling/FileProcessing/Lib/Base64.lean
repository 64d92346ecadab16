/-!
# Base64 in two alphabets

The base64url encoding without padding, and the forgiving decoder of the web, `atob`, which reads the standard alphabet. The two
alphabets differ in the digits 62 and 63 only, and a text of ASCII characters that leave a remainder below 62 modulo 64 never has
one of these: `atob` reads its base64url encoding.
-/

namespace Base64

/-- The character of a digit, with those of 62 and of 63. -/
def digit (c62 c63 : Char) (n : Nat) : Char :=
  if n < 26 then Char.ofNat ('A'.toNat + n)
  else if n < 52 then Char.ofNat ('a'.toNat + (n - 26))
  else if n < 62 then Char.ofNat ('0'.toNat + (n - 52))
  else if n = 62 then c62 else c63

/-- The URL alphabet. -/
def urlDigit : Nat → Char := digit '-' '_'

/-- The standard alphabet. -/
def standardDigit : Nat → Char := digit '+' '/'

/-- The digit of a character of the standard alphabet. -/
def sextet? (c : Char) : Option Nat := (List.range 64).find? (fun n => standardDigit n = c)

/-- Bytes as digits: three of them as four, and what is left as two or three. -/
def sextets : List Nat → List Nat
  | a :: b :: c :: rest => [a / 4, a % 4 * 16 + b / 16, b % 16 * 4 + c / 64, c % 64] ++ sextets rest
  | [a, b] => [a / 4, a % 4 * 16 + b / 16, b % 16 * 4]
  | [a] => [a / 4, a % 4 * 16]
  | [] => []

/-- Digits as bytes, the bits that are left over discarded. -/
def octets : List Nat → List Nat
  | w :: x :: y :: z :: rest => [w * 4 + x / 16, x % 16 * 16 + y / 4, y % 4 * 64 + z] ++ octets rest
  | [w, x, y] => [w * 4 + x / 16, x % 16 * 16 + y / 4]
  | [w, x] => [w * 4 + x / 16]
  | _ => []

/-- The base64url encoding, without padding. -/
def encodeUrl (bytes : List Nat) : List Char := (sextets bytes).map urlDigit

/-- ASCII whitespace. -/
def isSpace (c : Char) : Bool := c = '\t' || c = '\n' || c = '\x0c' || c = '\r' || c = ' '

/-- The text without the one or two `=` at its end. -/
def withoutPadding (text : List Char) : List Char :=
  match text.reverse with
  | '=' :: '=' :: rest => rest.reverse
  | '=' :: rest => rest.reverse
  | _ => text

/-- `atob`: the bytes as characters; `none` when it throws. -/
def atob (text : List Char) : Option (List Char) :=
  let text := text.filter (fun c => !isSpace c)
  let text := if text.length % 4 = 0 then withoutPadding text else text
  if text.length % 4 = 1 then none else (text.mapM sextet?).map (fun digits => (octets digits).map Char.ofNat)

/-! ## The digits of bytes -/

/-- The digits give the bytes back. -/
theorem octets_sextets {bytes : List Nat} (h : ∀ b ∈ bytes, b < 256) : octets (sextets bytes) = bytes := by
  induction bytes using sextets.induct with
  | case1 a b c rest ih =>
    have ha := h a (by simp)
    have hb := h b (by simp)
    have hc := h c (by simp)
    have hrest := ih (fun d hd => h d (by simp [hd]))
    simp only [sextets, octets, List.cons_append, List.nil_append, hrest, List.cons.injEq, and_true]
    omega
  | case2 a b =>
    have ha := h a (by simp)
    have hb := h b (by simp)
    simp only [sextets, octets, List.cons.injEq, and_true]
    omega
  | case3 a =>
    have ha := h a (by simp)
    simp only [sextets, octets, List.cons.injEq, and_true]
    omega
  | case4 => rfl

/-- There is no digit alone at the end. -/
theorem length_sextets_ne (bytes : List Nat) : (sextets bytes).length % 4 ≠ 1 := by
  induction bytes using sextets.induct with
  | case1 a b c rest ih =>
    simp only [sextets, List.length_append, List.length_cons, List.length_nil]
    omega
  | case2 | case3 | case4 => simp [sextets]

/-- The byte is that of an ASCII character, and its last six bits are not those of 62 or 63. -/
def Low (b : Nat) : Prop := b < 128 ∧ b % 64 < 62

instance (b : Nat) : Decidable (Low b) := inferInstanceAs (Decidable (_ ∧ _))

/-- At every offset: a digit of such bytes is below 62. The first digit has a zero in front, and the second and the third have one
behind the first two bits and behind the first four. -/
theorem sextets_lt {bytes : List Nat} (h : ∀ b ∈ bytes, Low b) : ∀ n ∈ sextets bytes, n < 62 := by
  induction bytes using sextets.induct with
  | case1 a b c rest ih =>
    obtain ⟨ha, -⟩ := h a (by simp)
    obtain ⟨hb, -⟩ := h b (by simp)
    obtain ⟨hc, hlast⟩ := h c (by simp)
    have hrest := ih (fun d hd => h d (by simp [hd]))
    intro n hn
    simp only [sextets, List.cons_append, List.nil_append, List.mem_cons] at hn
    rcases hn with rfl | rfl | rfl | rfl | hn
    · omega
    · omega
    · omega
    · exact hlast
    · exact hrest n hn
  | case2 a b =>
    obtain ⟨ha, -⟩ := h a (by simp)
    obtain ⟨hb, -⟩ := h b (by simp)
    intro n hn
    simp only [sextets, List.mem_cons, List.not_mem_nil, or_false] at hn
    omega
  | case3 a =>
    obtain ⟨ha, -⟩ := h a (by simp)
    intro n hn
    simp only [sextets, List.mem_cons, List.not_mem_nil, or_false] at hn
    omega
  | case4 =>
    intro n hn
    cases hn

/-! ## The alphabets -/

/-- Below 62 the two alphabets agree, no digit is whitespace or padding, and each is read as itself. -/
theorem digit_spec : ∀ n < 62, urlDigit n = standardDigit n ∧ isSpace (urlDigit n) = false ∧ urlDigit n ≠ '=' ∧
    sextet? (urlDigit n) = some n := by decide

theorem withoutPadding_of_not_mem {text : List Char} (h : '=' ∉ text) : withoutPadding text = text := by
  have hrev : '=' ∉ text.reverse := fun hmem => h (List.mem_reverse.mp hmem)
  unfold withoutPadding
  split
  · rename_i heq
    rw [heq] at hrev
    exact absurd List.mem_cons_self hrev
  · rename_i heq
    rw [heq] at hrev
    exact absurd List.mem_cons_self hrev
  · rfl

/-- `atob` reads the base64url encoding of such bytes. -/
theorem atob_encodeUrl {bytes : List Nat} (h : ∀ b ∈ bytes, Low b) : atob (encodeUrl bytes) = some (bytes.map Char.ofNat) := by
  have hdigit : ∀ n ∈ sextets bytes, isSpace (urlDigit n) = false ∧ urlDigit n ≠ '=' ∧ sextet? (urlDigit n) = some n :=
    fun n hn => (digit_spec n (sextets_lt h n hn)).2
  have hspace : (encodeUrl bytes).filter (fun c => !isSpace c) = encodeUrl bytes := by
    rw [List.filter_eq_self, encodeUrl, List.forall_mem_map]
    intro n hn
    rw [(hdigit n hn).1]
    rfl
  have hpad : withoutPadding (encodeUrl bytes) = encodeUrl bytes := by
    apply withoutPadding_of_not_mem
    intro hmem
    obtain ⟨n, hn, heq⟩ := List.mem_map.mp hmem
    exact (hdigit n hn).2.1 heq
  have hlen : ¬ (encodeUrl bytes).length % 4 = 1 := by
    rw [encodeUrl, List.length_map]
    exact length_sextets_ne bytes
  have hread : (encodeUrl bytes).mapM sextet? = some (sextets bytes) := by
    have hall : ∀ digits : List Nat, (∀ n ∈ digits, sextet? (urlDigit n) = some n) →
        (digits.map urlDigit).mapM sextet? = some digits := by
      intro digits
      induction digits with
      | nil =>
        intro _
        rfl
      | cons n digits ih =>
        intro hall
        rw [List.map_cons, List.mapM_cons, hall n List.mem_cons_self, ih (fun m hm => hall m (List.mem_cons_of_mem n hm))]
        rfl
    exact hall (sextets bytes) (fun n hn => (hdigit n hn).2.2)
  have hbytes : octets (sextets bytes) = bytes := octets_sextets (fun b hb => Nat.lt_trans (h b hb).1 (by decide))
  simp only [atob, hspace, hpad, ite_self, if_neg hlen, hread, Option.map_some, hbytes]

end Base64
