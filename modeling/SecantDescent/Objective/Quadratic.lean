import SecantDescent.Objective.Basic

/-!
# Quadratic objectives

The function `½ xᵀ A x + bᵀ x + c` with gradient `A x + b` and Hessian `A`.
The gradient and the Hessian are those of the function when `A` is symmetric;
for any other matrix they are taken as they stand.
-/

namespace SecantDescent

structure Quadratic (α : Type) where
  matrix : DenseMatrix α
  linear : Array α
  constant : α

namespace Quadratic

variable {α : Type} [Scalar α]

def halfSquare (n : Nat) : Quadratic α where
  matrix := .ofGrid (Grid.identity n)
  linear := Array.replicate n 0
  constant := 0

def ofForm (A : DenseMatrix α) : Quadratic α where
  matrix := .ofGrid (A.grid.mapEntries (· * Scalar.two))
  linear := Array.replicate A.rows 0
  constant := 0

/-- The product of the matrix with a point, which has to have as many
components as the matrix has columns. -/
def matrixAt (q : Quadratic α) (x : Array α) :
    Except (Failure α) (Vector α q.matrix.rows) :=
  if h : x.size = q.matrix.cols then
    .ok (q.matrix.grid.mulVec ⟨x, h⟩)
  else
    .error .shapeClash

def valueAt (q : Quadratic α) (x : Array α) : Except (Failure α) α := do
  let image ← q.matrixAt x
  let square ← Failure.orClash (Dense.dot? x image.toArray)
  let linear ← Failure.orClash (Dense.dot? q.linear x)
  return square * Scalar.half + linear + q.constant

def gradientAt (q : Quadratic α) (x : Array α) : Except (Failure α) (Array α) := do
  let image ← q.matrixAt x
  if h : q.linear.size = q.matrix.rows then
    return (image + ⟨q.linear, h⟩).toArray
  else
    throw .shapeClash

def objective {σ : Type} (q : Quadratic α) : Objective σ α :=
  .ofFunctions q.valueAt q.gradientAt fun _ => .ok q.matrix

end Quadratic

end SecantDescent
