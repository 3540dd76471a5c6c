import SecantDescent.Proofs.Float.Order
import SecantDescent.Proofs.Run.Inversion

/-!
# The norm and the stopping test

A stopping rule looks at the components of a gradient one after the other, a report
tells the largest magnitude among them.  A component that is not a number is refused
by the rule and passed over by the norm; otherwise a gradient meets the rule exactly
when its norm is within the tolerance.
-/

namespace SecantDescent

open Scalar

namespace StoppingRule

variable {α : Type} [Scalar α] [ComparableScalar α] {stopping : StoppingRule α}

theorem zero_le_tolerance (hvalid : stopping.validate = .ok ()) : 0 ≤ stopping.tolerance := by
  obtain ⟨hnumber, hnegative, -⟩ := validate_eq_ok_iff.mp hvalid
  exact ComparableScalar.le_iff.mpr ⟨⟨OrderedScalar.zero_number, hnumber⟩, hnegative⟩

/-- No norm is within a tolerance below zero, but a gradient without components meets
every tolerance. -/
theorem isSatisfiedBy_and_zero_le_iff {gradient : List α} :
    stopping.isSatisfiedBy gradient = true ∧ 0 ≤ stopping.tolerance ↔
      (∀ component ∈ gradient, isNaN component = false) ∧
        largestMagnitude gradient ≤ stopping.tolerance := by
  simp only [isSatisfiedBy, List.all_eq_true, decide_eq_true_eq, largestMagnitude_le_iff]
  constructor
  · rintro ⟨hwithin, hzero⟩
    exact ⟨fun component hmem => number_of_abs_le (hwithin component hmem), hzero,
      fun component hmem _ => hwithin component hmem⟩
  · rintro ⟨hnumbers, hzero, hwithin⟩
    exact ⟨fun component hmem => hwithin component hmem (hnumbers component hmem), hzero⟩

theorem isSatisfiedBy_iff_of_valid (hvalid : stopping.validate = .ok ()) {gradient : List α} :
    stopping.isSatisfiedBy gradient = true ↔
      (∀ component ∈ gradient, isNaN component = false) ∧
        largestMagnitude gradient ≤ stopping.tolerance := by
  rw [← isSatisfiedBy_and_zero_le_iff, and_iff_left (zero_le_tolerance hvalid)]

/-- A valid rule accepts the gradients whose components are all numbers and whose
norm is within its tolerance.  The norm is a number, no component that is a number
is larger, and it is zero or attained. -/
theorem largestMagnitude_decides_stopping (gradient : List α) :
    (∀ stopping : StoppingRule α, stopping.validate = .ok () →
      (stopping.isSatisfiedBy gradient = true ↔
        (∀ component ∈ gradient, isNaN component = false) ∧
          largestMagnitude gradient ≤ stopping.tolerance)) ∧
    isNaN (largestMagnitude gradient) = false ∧
    (∀ component ∈ gradient, isNaN component = false →
      Scalar.abs component ≤ largestMagnitude gradient) ∧
    (largestMagnitude gradient = 0 ∨
      ∃ component ∈ gradient, largestMagnitude gradient = Scalar.abs component) := by
  refine ⟨?_, ?_, ?_, ?_⟩
  · intro stopping hvalid
    exact isSatisfiedBy_iff_of_valid hvalid
  · exact largestMagnitude_number gradient
  · intro component hmem hnumber
    exact abs_le_largestMagnitude hmem hnumber
  · exact largestMagnitude_eq_or gradient

/-- An infinite tolerance accepts an infinite component, and no component that is not
a number although the norm is within it. -/
theorem infinite_tolerance_decides_stopping :
    ((⟨1 / 0, 1⟩ : StoppingRule Float).validate = .ok () ∧
      largestMagnitude [-1 / 0, 0 / 0, (2 : Float)] ≤ 1 / 0 ∧
      (⟨1 / 0, 1⟩ : StoppingRule Float).isSatisfiedBy [-1 / 0, 0 / 0, 2] = false) ∧
    (⟨1 / 0, 1⟩ : StoppingRule Float32).validate = .ok () ∧
      Scalar.abs (-1 / 0) ≤ largestMagnitude [2, (-1 / 0 : Float32)] ∧
      (⟨1 / 0, 1⟩ : StoppingRule Float32).isSatisfiedBy [2, -1 / 0] = true := by
  have hvalid : (⟨1 / 0, 1⟩ : StoppingRule Float).validate = .ok () :=
    validate_eq_ok_iff.mpr (by decide +kernel)
  have hvalid' : (⟨1 / 0, 1⟩ : StoppingRule Float32).validate = .ok () :=
    validate_eq_ok_iff.mpr (by decide +kernel)
  obtain ⟨htest, -⟩ := largestMagnitude_decides_stopping [-1 / 0, 0 / 0, (2 : Float)]
  obtain ⟨htest', -, hbound, -⟩ := largestMagnitude_decides_stopping [2, (-1 / 0 : Float32)]
  refine ⟨⟨hvalid, by decide +kernel, ?_⟩, hvalid', ?_, ?_⟩
  · rw [← Bool.not_eq_true, htest _ hvalid]
    rintro ⟨hnumbers, -⟩
    exact absurd (hnumbers (0 / 0) (by simp)) (by decide +kernel)
  · exact hbound (-1 / 0) (by simp) (by decide +kernel)
  · exact (htest' _ hvalid').mpr (by decide +kernel)

end StoppingRule

end SecantDescent
