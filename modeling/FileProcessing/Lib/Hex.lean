import Mathlib.Algebra.Group.Nat.Defs
import Mathlib.Data.List.Basic

/-!
# Hexadecimal digits

The last `k` lower-case hexadecimal digits of a number: there are `k` of them, each is one of sixteen characters, and they
determine the number modulo `16 ^ k`.
-/

namespace Hex

/-- A lower-case hexadecimal digit. -/
def digit (n : Nat) : Char := if n < 10 then Char.ofNat (48 + n) else Char.ofNat (87 + n)

/-- The last `k` hexadecimal digits of a number. -/
def digits : Nat → Nat → List Char
  | 0, _ => []
  | k + 1, n => digits k (n / 16) ++ [digit (n % 16)]

theorem digit_inj : ∀ d < 16, ∀ e < 16, digit d = digit e → d = e := by decide

theorem length_digits (k n : Nat) : (digits k n).length = k := by
  induction k generalizing n with
  | zero => rfl
  | succ k ih => rw [digits, List.length_append, ih, List.length_singleton]

/-- Every character is a digit of a number below 16. -/
theorem mem_digits {k n : Nat} {c : Char} (h : c ∈ digits k n) : ∃ d < 16, c = digit d := by
  induction k generalizing n with
  | zero => cases h
  | succ k ih =>
    rw [digits, List.mem_append, List.mem_singleton] at h
    rcases h with h | h
    · exact ih h
    · exact ⟨n % 16, Nat.mod_lt n (by decide), h⟩

/-- The digits determine the number modulo `16 ^ k`. -/
theorem digits_inj {k n m : Nat} (h : digits k n = digits k m) : n % 16 ^ k = m % 16 ^ k := by
  induction k generalizing n m with
  | zero => rw [Nat.pow_zero, Nat.mod_one, Nat.mod_one]
  | succ k ih =>
    obtain ⟨hdiv, hmod⟩ := List.append_inj' h rfl
    have hd : n % 16 = m % 16 :=
      digit_inj _ (Nat.mod_lt n (by decide)) _ (Nat.mod_lt m (by decide)) (List.cons.inj hmod).1
    have hq : n / 16 % 16 ^ k = m / 16 % 16 ^ k := ih hdiv
    rw [Nat.pow_succ, Nat.mul_comm, Nat.mod_mul, Nat.mod_mul, hd, hq]

end Hex
