import Mathlib.Data.List.TakeWhile
import Mathlib.Tactic.Common

/-!
# C strings

A C string is the bytes of a buffer up to the first NUL.
-/

namespace Conveyor

/-- The bytes of a buffer. -/
abbrev Text := List UInt8

/-- The ASCII code of a character. -/
def byte (character : Char) : UInt8 := character.toNat.toUInt8

def text (string : String) : Text := string.toList.map byte

/-- The C string that starts a text: everything before the first NUL. -/
def cString (bytes : Text) : Text := bytes.takeWhile (· ≠ 0)

theorem cString_eq_self {bytes : Text} (hnul : (0 : UInt8) ∉ bytes) :
    cString bytes = bytes := by
  refine List.takeWhile_eq_self_iff.mpr fun other hmem => ?_
  exact decide_eq_true fun hzero => hnul (hzero ▸ hmem)

/-- What follows a NUL is no part of the string. -/
theorem cString_append_zeros (bytes : Text) (count : ℕ) :
    cString (bytes ++ List.replicate count 0) = cString bytes := by
  induction bytes with
  | nil => cases count <;> rfl
  | cons first rest ih =>
      by_cases hnul : first = 0
      · simp [cString, hnul]
      · have hrest : List.takeWhile (· ≠ 0) (rest ++ List.replicate count 0) =
            List.takeWhile (· ≠ 0) rest := ih
        simp only [cString, List.cons_append, List.takeWhile_cons, hrest]

end Conveyor
