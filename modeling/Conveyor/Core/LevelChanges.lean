import Mathlib.Data.List.Basic
import Mathlib.Tactic.Common

/-!
# Changes along a sequence of levels

A signal is sampled as a list of levels after a reference level.  `changes`
counts how often the level differs from the one before it, which is what an
edge detector can see at best.
-/

namespace Conveyor.Core

variable {Level : Type*} [DecidableEq Level]

/-- How often the level changes along `levels`, starting from `reference`. -/
def changes : Level → List Level → ℕ
  | _, [] => 0
  | reference, level :: levels =>
      (if level = reference then 0 else 1) + changes level levels

@[simp]
theorem changes_nil (reference : Level) : changes reference [] = 0 := rfl

theorem changes_cons (reference level : Level) (levels : List Level) :
    changes reference (level :: levels) =
      (if level = reference then 0 else 1) + changes level levels := rfl

theorem changes_append (reference : Level) (first second : List Level) :
    changes reference (first ++ second) =
      changes reference first + changes (first.getLastD reference) second := by
  induction first generalizing reference with
  | nil => simp
  | cons level levels ih =>
      simp only [List.cons_append, changes_cons, List.getLastD_cons, ih]
      omega

theorem getLastD_append {Level : Type*} (start : Level)
    (first second : List Level) :
    (first ++ second).getLastD start =
      second.getLastD (first.getLastD start) := by
  induction first generalizing start with
  | nil => rfl
  | cons level levels ih =>
      rw [List.cons_append, List.getLastD_cons, List.getLastD_cons, ih]

/-- A signal that does not end at its reference has changed. -/
theorem changes_pos {reference : Level} {levels : List Level}
    (hlast : levels.getLastD reference ≠ reference) :
    0 < changes reference levels := by
  induction levels generalizing reference with
  | nil => simp at hlast
  | cons level levels ih =>
      rw [changes_cons]
      by_cases hsame : level = reference
      · subst hsame
        have hrest := ih (by rwa [List.getLastD_cons] at hlast)
        omega
      · simp only [hsame, if_false]
        omega

/-- A signal without a change stays at its reference. -/
theorem getLastD_of_changes_eq_zero {reference : Level} {levels : List Level}
    (hzero : changes reference levels = 0) :
    levels.getLastD reference = reference := by
  by_contra hlast
  have hpos := changes_pos hlast
  omega

/-- A single change does not lead back to the reference. -/
theorem changes_ne_one {reference : Level} {levels : List Level}
    (hlast : levels.getLastD reference = reference) :
    changes reference levels ≠ 1 := by
  induction levels generalizing reference with
  | nil => simp
  | cons level levels ih =>
      rw [changes_cons]
      rw [List.getLastD_cons] at hlast
      by_cases hsame : level = reference
      · subst hsame
        simpa using ih hlast
      · have hback : levels.getLastD level ≠ level := by
          rw [hlast]
          exact Ne.symm hsame
        have hpos := changes_pos hback
        simp only [hsame, if_false]
        omega

/-- At most one change back to the reference is no change. -/
theorem changes_eq_zero_of_le_one {reference : Level} {levels : List Level}
    (hone : changes reference levels ≤ 1)
    (hlast : levels.getLastD reference = reference) :
    changes reference levels = 0 := by
  have hnot := changes_ne_one hlast
  omega

/-- At most one change that does not lead back is one. -/
theorem changes_eq_one_of_le_one {reference : Level} {levels : List Level}
    (hone : changes reference levels ≤ 1)
    (hlast : levels.getLastD reference ≠ reference) :
    changes reference levels = 1 := by
  have hpos := changes_pos hlast
  omega

end Conveyor.Core
