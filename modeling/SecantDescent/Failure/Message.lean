import SecantDescent.Decimal.Shortest
import SecantDescent.Failure.Basic

/-!
# The wording of failures

One sentence per failure.  Numbers in an objection are written without an
exponent and with the digits of their own format; the denominator of a
degenerate update is written with an exponent, after widening to binary64.
-/

namespace SecantDescent

/-- A size in words: a length as it is, a shape as rows by columns. -/
def Extent.text : Extent → String
  | length n => toString n
  | shape rows cols => toString rows ++ "x" ++ toString cols
  | described text => text

namespace Objection

variable {α : Type}

def argument : Objection α → String
  | toleranceNotANumber | toleranceNegative _ => "convergence"
  | emptyBudget => "max_iterations"
  | stepLengthUnusable _ => "step_length"
  | emptyPoint | nonFinitePoint => "initial_point"
  | custom argument _ => argument

def reason [BinaryFloat α] : Objection α → String
  | toleranceNotANumber => "must be a real number, got NaN"
  | toleranceNegative tolerance =>
      "must be >= 0, got " ++ (BinaryFloat.numeral tolerance).positional
  | emptyBudget => "must be >= 1, got 0"
  | stepLengthUnusable stepLength =>
      "must be finite and > 0, got " ++ (BinaryFloat.numeral stepLength).positional
  | emptyPoint => "must have at least one component"
  | nonFinitePoint => "must contain only finite values"
  | custom _ reason => reason

end Objection

/-- A number of any width as text with an exponent, after widening. -/
def widenedText {α : Type} [BinaryFloat α] (x : α) : String :=
  (BinaryFloat.numeral (BinaryFloat.convert x : Float)).scientific

def Failure.message {α : Type} [BinaryFloat α] : Failure α → String
  | invalidArgument objection =>
      "Invalid argument `" ++ objection.argument ++ "`: " ++ objection.reason
  | dimensionMismatch argument expected actual =>
      "Dimension mismatch in `" ++ argument ++ "`: expected " ++ expected.text ++
        ", got " ++ actual.text
  | singularMatrix iteration =>
      "Singular Hessian approximation at iteration " ++ toString iteration
  | degenerateUpdate method quantity value =>
      "Degenerate " ++ method ++ " update: " ++ quantity ++ " = " ++ widenedText value ++
        " is too close to zero"
  | nonFiniteValue quantity iteration =>
      "Non-finite " ++ quantity ++ " at iteration " ++ toString iteration
  | maxIterationsReached iterations _ _ _ =>
      "Maximum iterations (" ++ toString iterations ++ ") reached without convergence"
  | evaluation reason => "Evaluation failed: " ++ reason
  | shapeClash => "Operands of different sizes"

end SecantDescent
