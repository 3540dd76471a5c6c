import SecantDescent.Objective.Univariate

/-!
# Laurent polynomials

Sums of terms, each a coefficient that is multiplied and divided by variables
one after the other.  The operations are carried out in the order in which the
polynomial is written down, so a polynomial is an expression and not an
element of a ring.
-/

namespace SecantDescent

inductive Factor where
  | multiplyBy (index : Nat)
  | divideBy (index : Nat)
  deriving DecidableEq, Repr

structure Term (α : Type) where
  coefficient : α
  factors : List Factor

/-- The terms of a sum, in the order of addition. -/
abbrev Laurent (α : Type) := List (Term α)

variable {α : Type} [Scalar α]

/-- Applies an operation to what a term has come to so far.  The variable has
to be a component of the point. -/
def Factor.apply (point : Array α) (product : α) : Factor → Except (Failure α) α
  | multiplyBy i =>
      match point[i]? with
      | some x => .ok (product * x)
      | none => .error .shapeClash
  | divideBy i =>
      match point[i]? with
      | some x => .ok (product / x)
      | none => .error .shapeClash

def Term.eval (term : Term α) (point : Array α) : Except (Failure α) α :=
  term.factors.foldlM (Factor.apply point) term.coefficient

namespace Laurent

def eval (polynomial : Laurent α) (point : Array α) : Except (Failure α) α :=
  polynomial.foldlM (fun total term => do return total + (← term.eval point)) 0

variable {σ : Type}

/-- The objective whose value, gradient components and Hessian entries are
polynomials. -/
def objective (value : Laurent α) (gradient : Array (Laurent α))
    (hessian : DenseMatrix (Laurent α)) : Objective σ α :=
  .ofFunctions
    (value.eval ·)
    (fun x => gradient.mapM (eval · x))
    (fun x => do
      let entries ← hessian.grid.mapM fun row => row.mapM (eval · x)
      return .ofGrid entries)

/-- The objective of one variable whose value and derivatives are
polynomials. -/
def objectiveOfOne (value derivative secondDerivative : Laurent α) : Objective σ α :=
  .univariate (value.eval #[·]) (derivative.eval #[·]) (secondDerivative.eval #[·])

end Laurent

end SecantDescent
