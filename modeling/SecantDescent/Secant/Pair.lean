import SecantDescent.Objective.Basic

/-!
# Secant pairs

The step between two points together with the change of the gradient along it.
A Hessian approximation that maps the step to the change satisfies the secant
equation.
-/

namespace SecantDescent

structure SecantPair (α : Type) where
  s : Array α
  y : Array α

namespace SecantPair

variable {σ α : Type}

/-- The pair of two steps, which have to be equally long. -/
def ofSteps (s y : Array α) : Except (Failure α) (SecantPair α) :=
  if s.size = y.size then
    .ok ⟨s, y⟩
  else
    .error (.wrongLength "y" s.size y.size)

def length (pair : SecantPair α) : Nat :=
  pair.s.size

def isEmpty (pair : SecantPair α) : Bool :=
  pair.s.isEmpty

variable [Scalar α]

def between (f : Objective σ α) (point next : Array α) : Eval σ α (SecantPair α) := do
  if point.size ≠ next.size then
    throw (.wrongLength "next_point" point.size next.size)
  let gradient ← f.gradient point
  let nextGradient ← f.gradient next
  if gradient.size ≠ point.size then
    throw (.wrongLength "gradient" point.size gradient.size)
  if nextGradient.size ≠ point.size then
    throw (.wrongLength "gradient" point.size nextGradient.size)
  let s ← .ofExcept (Failure.orClash (Dense.difference? next point))
  let y ← .ofExcept (Failure.orClash (Dense.difference? nextGradient gradient))
  .ofExcept (ofSteps s y)

/-- The curvature along the step, the dot product of its two parts. -/
def curvature (pair : SecantPair α) : Except (Failure α) α :=
  Failure.orClash (Dense.dot? pair.y pair.s)

def isFinite (pair : SecantPair α) : Bool :=
  Scalar.allFinite pair.s.toList && Scalar.allFinite pair.y.toList

end SecantPair

end SecantDescent
