import SecantDescent.Objective.Basic

/-!
# Finite differences

Derivatives estimated by central differences with a displacement `h`, and the
comparison of an objective's own derivatives with these estimates.  A gradient
is compared with differences of the value, a Hessian with differences of the
gradient.  The comparison passes when the largest error is below the tolerance.
-/

namespace SecantDescent

structure Comparison (α : Type) where
  passes : Bool
  maxError : α

namespace Objective

variable {σ α : Type} [Scalar α]

def displaced (x : Array α) (i : Fin x.size) (h : α) : Array α :=
  x.set i (x[i] + h)

def displacedBack (x : Array α) (i : Fin x.size) (h : α) : Array α :=
  x.set i (x[i] - h)

def partialByDifferences (f : Objective σ α) (h : α) (x : Array α) (i : Fin x.size) :
    Eval σ α α := do
  let above ← f.cost (displaced x i h)
  let below ← f.cost (displacedBack x i h)
  return (above - below) / (h + h)

/-- The gradient estimated from two values per component, the components in
order. -/
def gradientByDifferences (f : Objective σ α) (h : α) (x : Array α) :
    Eval σ α (Array α) := do
  return (← (List.finRange x.size).mapM (f.partialByDifferences h x)).toArray

def compareGradient (f : Objective σ α) (h : α) (x : Array α) (tolerance : α) :
    Eval σ α (Comparison α) := do
  let gradient ← f.gradient x
  if gradient.size ≠ x.size then
    throw (.wrongLength "gradient" x.size gradient.size)
  let estimate ← f.gradientByDifferences h x
  let errors := List.zipWith (· - ·) gradient.toList estimate.toList
  let maxError := Scalar.largestMagnitude errors
  return ⟨maxError < tolerance, maxError⟩

/-- The central difference of the gradient in one component; it is as long as
the gradients, which have to be equally long. -/
def columnByDifferences (f : Objective σ α) (h : α) (x : Array α) (i : Fin x.size) :
    Eval σ α (Array α) := do
  let above ← f.gradient (displaced x i h)
  let below ← f.gradient (displacedBack x i h)
  if above.size ≠ below.size then
    throw .shapeClash
  return above.zipWith (fun a b => (a - b) / (h + h)) below

/-- The largest error in one column of a Hessian, or `best` if that is larger.
Entries of the estimate past the end of the column are not looked at. -/
def columnError {n : Nat} (hessian : Grid α n n) (i : Fin n) (estimate : Array α)
    (best : α) : Except (Failure α) α :=
  if h : n ≤ estimate.size then
    .ok <| (List.finRange n).foldl
      (fun best j => Scalar.larger best (Scalar.abs (hessian.entry j i - estimate[j])))
      best
  else
    .error .shapeClash

/-- Compares the Hessian at a point with its estimate, column by column. -/
def compareHessian (f : Objective σ α) (h : α) (x : Array α) (tolerance : α) :
    Eval σ α (Comparison α) := do
  let hessian ← f.hessian x
  match hessian.toGrid? x.size x.size with
  | none => throw (.notSquare "hessian" x.size hessian.rows hessian.cols)
  | some entries =>
      let maxError ← (List.finRange x.size).foldlM
        (fun best i => do
          let estimate ← f.columnByDifferences h x i
          .ofExcept (columnError entries i estimate best)) 0
      return ⟨maxError < tolerance, maxError⟩

end Objective

end SecantDescent
