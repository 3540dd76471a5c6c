import SecantDescent.Failure.Basic
import SecantDescent.Scalar

/-!
# When a run stops

A run stops as soon as every component of the gradient is within an absolute
tolerance of zero, or when its budget of iterations is spent.  The multiplier
of the steps is the only other choice that a caller makes about a run.
-/

namespace SecantDescent

structure StoppingRule (α : Type) where
  /-- The absolute tolerance on every gradient component.  Zero demands an
  exact stationary point. -/
  tolerance : α
  maxIterations : UInt64

namespace StoppingRule

variable {α : Type}

def standard [Precision α] : StoppingRule α where
  tolerance := Precision.gradientTolerance
  maxIterations := 100

variable [Scalar α]

/-- Refuses a tolerance that is not a number or is below zero, and an empty
budget, in this order. -/
def validate (rule : StoppingRule α) : Except (Failure α) Unit :=
  if Scalar.isNaN rule.tolerance then
    .error (.invalidArgument .toleranceNotANumber)
  else if rule.tolerance < 0 then
    .error (.invalidArgument (.toleranceNegative rule.tolerance))
  else if rule.maxIterations = 0 then
    .error (.invalidArgument .emptyBudget)
  else
    .ok ()

/-- Holds when every component of the gradient is within the tolerance of
zero. -/
def isSatisfiedBy (rule : StoppingRule α) (gradient : List α) : Bool :=
  gradient.all fun component => Scalar.abs component ≤ rule.tolerance

end StoppingRule

structure StepRule (α : Type) where
  stepLength : α

namespace StepRule

variable {α : Type}

def standard [Precision α] : StepRule α where
  stepLength := Precision.stepLength

/-- Refuses a step length that is not finite or not above zero. -/
def validate [Scalar α] (rule : StepRule α) : Except (Failure α) Unit :=
  if !Scalar.isFinite rule.stepLength || rule.stepLength ≤ 0 then
    .error (.invalidArgument (.stepLengthUnusable rule.stepLength))
  else
    .ok ()

end StepRule

end SecantDescent
