import SecantDescent.Objective.Recorded
import SecantDescent.Objective.Watched
import SecantDescent.Secant.Rule

/-!
# Refreshing a Hessian approximation

An `UpdateRule` is what a run refreshes its matrix with: a name and a callable
that is given the matrix held and a secant pair.  The two secant rules become
update rules together with a `Safeguard`, which says how small a denominator
may be and what happens below that; a caller can supply any other rule.
-/

namespace SecantDescent

/-- What happens to an update whose denominator is too close to zero. -/
inductive DegeneratePolicy where
  | skip
  | error
  deriving DecidableEq, Repr

structure Safeguard (α : Type) where
  policy : DegeneratePolicy := .skip
  /-- The size, relative to the data, up to which a denominator counts as
  zero. -/
  tolerance : α

def Safeguard.standard {α : Type} [Precision α] : Safeguard α where
  tolerance := Precision.degeneracyTolerance

inductive Refresh (α : Type) where
  | updated (matrix : DenseMatrix α)
  | skipped (degeneracy : Degeneracy α)

def Refresh.matrix {α : Type} (held : DenseMatrix α) : Refresh α → DenseMatrix α
  | updated matrix => matrix
  | skipped _ => held

namespace SecantRule

variable {α : Type} [Scalar α]

def settle (rule : SecantRule) (safeguard : Safeguard α) {n : Nat} :
    Except (Degeneracy α) (Grid α n n) → Except (Failure α) (Refresh α)
  | .ok updated => .ok (.updated (.ofGrid updated))
  | .error degeneracy =>
      match safeguard.policy with
      | .skip => .ok (.skipped degeneracy)
      | .error =>
          .error (.degenerateUpdate rule.name degeneracy.quantity degeneracy.value)

/-- Refreshes a matrix, which has to be square of the size of the step. -/
def refresh (rule : SecantRule) (safeguard : Safeguard α) (held : DenseMatrix α)
    (pair : SecantPair α) : Except (Failure α) (Refresh α) :=
  match held.toGrid? pair.length pair.length with
  | none => .error (.notSquare "hessian" pair.length held.rows held.cols)
  | some B =>
      let s : Vector α pair.length := pair.s.toVector
      match rule.checkStep s with
      | .error degeneracy => rule.settle safeguard (n := pair.length) (.error degeneracy)
      | .ok () =>
          if h : pair.y.size = pair.length then
            rule.settle safeguard (rule.update safeguard.tolerance B s ⟨pair.y, h⟩)
          else
            .error .shapeClash

end SecantRule

structure UpdateRule (σ α : Type) where
  name : String
  refresh : DenseMatrix α → SecantPair α → Eval σ α (Refresh α)

def SecantRule.toUpdateRule {σ α : Type} [Scalar α] (rule : SecantRule)
    (safeguard : Safeguard α) : UpdateRule σ α where
  name := rule.name
  refresh held pair := .ofExcept (rule.refresh safeguard held pair)

namespace UpdateRule

variable {σ τ α : Type}

/-- A rule used below a state that it does not know. -/
def beneath (rule : UpdateRule σ α) : UpdateRule (τ × σ) α where
  name := rule.name
  refresh held pair := (rule.refresh held pair).beneath

def traced (rule : UpdateRule σ α) : UpdateRule (Trace α × σ) α where
  name := rule.name
  refresh held pair := (rule.refresh held pair).recording (.refresh held pair.s pair.y)

def recorded (name : String) : UpdateRule (Reel (DenseMatrix α) × σ) α where
  name
  refresh _ _ := .of fun (reel, below) =>
    let (answer, rest) := reel.play
    (answer.map .updated, (rest, below))

/-- Refreshes a matrix for the move from one point to the next, whose secant
pair takes a gradient at each of them. -/
def advance [Scalar α] (rule : UpdateRule σ α) (f : Objective σ α)
    (held : DenseMatrix α) (point next : Array α) : Eval σ α (Refresh α) := do
  rule.refresh held (← SecantPair.between f point next)

end UpdateRule

end SecantDescent
