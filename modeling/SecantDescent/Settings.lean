import SecantDescent.Json.Document
import SecantDescent.Run.Report
import SecantDescent.Run.Stopping
import SecantDescent.Secant.Refresh

/-!
# The settings of a run in documents

The names of the fields and alternatives that settings have as JSON.
-/

namespace SecantDescent

variable {α : Type} [BinaryFloat α]

instance : Document DegeneratePolicy where
  encode
    | .skip => .text "Skip"
    | .error => .text "Error"
  decode value :=
    match Document.choice? value with
    | some "Skip" => some .skip
    | some "Error" => some .error
    | _ => none

instance : Document Ending where
  encode
    | .converged => .text "Converged"
    | .maxIterations => .text "MaxIterations"
  decode value :=
    match Document.choice? value with
    | some "Converged" => some .converged
    | some "MaxIterations" => some .maxIterations
    | _ => none

instance : Document (StoppingRule α) where
  encode rule :=
    .record
      [("gradient_tolerance", Document.encode rule.tolerance),
        ("max_iterations", Document.encode rule.maxIterations)]
  decode value := do
    match ← Document.fields? ["gradient_tolerance", "max_iterations"] value with
    | [tolerance, maxIterations] =>
        return ⟨← Document.decode tolerance, ← Document.decode maxIterations⟩
    | _ => none

instance : Document (StepRule α) where
  encode rule := .record [("step_length", Document.encode rule.stepLength)]
  decode value := do
    match ← Document.fields? ["step_length"] value with
    | [stepLength] => return ⟨← Document.decode stepLength⟩
    | _ => none

instance : Document (Safeguard α) where
  encode safeguard :=
    .record
      [("policy", Document.encode safeguard.policy),
        ("tolerance", Document.encode safeguard.tolerance)]
  decode value := do
    match ← Document.fields? ["policy", "tolerance"] value with
    | [policy, tolerance] =>
        return ⟨← Document.decode policy, ← Document.decode tolerance⟩
    | _ => none

end SecantDescent
