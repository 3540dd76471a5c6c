/-!
# Failures

Everything that can keep a minimisation, or one of its parts, from giving a
result.  A failure records its cause as data; its wording is in
`SecantDescent.Failure.Message`.
-/

namespace SecantDescent

inductive Objection (α : Type) where
  | toleranceNotANumber
  | toleranceNegative (tolerance : α)
  | emptyBudget
  | stepLengthUnusable (stepLength : α)
  | emptyPoint
  | nonFinitePoint
  | custom (argument reason : String)
  deriving DecidableEq

inductive Extent where
  | length (n : Nat)
  | shape (rows cols : Nat)
  | described (text : String)
  deriving DecidableEq, Repr

inductive Failure (α : Type) where
  | invalidArgument (objection : Objection α)
  | dimensionMismatch (argument : String) (expected actual : Extent)
  | singularMatrix (iteration : Nat)
  | degenerateUpdate (method quantity : String) (value : α)
  | nonFiniteValue (quantity : String) (iteration : Nat)
  | maxIterationsReached (iterations : Nat) (value gradientNorm tolerance : α)
  | evaluation (reason : String)
  /-- Operands whose sizes do not fit met in an operation that takes fitting
  sizes for granted.  A run checks the sizes of all it receives, so this comes
  from within a callable, from a difference of two of a callable's answers, or
  from a secant pair that was put together without a check. -/
  | shapeClash
  deriving DecidableEq

namespace Failure

variable {α : Type}

def isInvalidArgument : Failure α → Bool
  | invalidArgument _ | dimensionMismatch .. => true
  | _ => false

/-- The mismatch between the length that a vector should have and its own. -/
def wrongLength (argument : String) (expected actual : Nat) : Failure α :=
  dimensionMismatch argument (.length expected) (.length actual)

/-- The mismatch between a square shape and the shape of a matrix. -/
def notSquare (argument : String) (n rows cols : Nat) : Failure α :=
  dimensionMismatch argument (.shape n n) (.shape rows cols)

/-- The result of an operation on operands of any size, which has none where
the sizes do not fit. -/
def orClash {β : Type} : Option β → Except (Failure α) β
  | some result => .ok result
  | none => .error .shapeClash

end Failure

end SecantDescent
