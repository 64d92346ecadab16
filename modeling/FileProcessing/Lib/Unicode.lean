import Mathlib.Data.List.Basic
import Mathlib.Algebra.GroupWithZero.Nat

/-!
# The code units of a text

A `String` is a sequence of code points. Other programs measure it in the units of an encoding.
-/

namespace FileProcessing

/-- The number of UTF-16 code units: a code point beyond the first plane takes two. -/
def utf16Length (text : String) : Nat := (text.toList.map (fun c => if c.toNat ≤ 0xFFFF then 1 else 2)).sum

/-- The UTF-8 encoding. -/
def utf8Bytes (text : String) : List UInt8 := text.toList.flatMap String.utf8EncodeChar

theorem utf8Bytes_append (a b : String) : utf8Bytes (a ++ b) = utf8Bytes a ++ utf8Bytes b := by
  simp [utf8Bytes]

/-- A text of ASCII characters takes one byte each. -/
theorem length_utf8Bytes_of_ascii {text : String} (h : ∀ c ∈ text.toList, c.utf8Size = 1) :
    (utf8Bytes text).length = text.length := by
  rw [utf8Bytes, List.length_flatMap, ← String.length_toList]
  generalize text.toList = l at h
  induction l with
  | nil => rfl
  | cons c l ih =>
    rw [List.map_cons, List.sum_cons, String.length_utf8EncodeChar, h c List.mem_cons_self,
      ih (fun d hd => h d (List.mem_cons_of_mem c hd)), List.length_cons]
    omega

end FileProcessing
