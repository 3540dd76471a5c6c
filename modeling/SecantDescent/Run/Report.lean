import SecantDescent.Objective.Watched

/-!
# The report of a run

What a run that did not fail has to say: where it ended, what it knows about
that point, and why it stopped.  Spending the budget is an ordinary ending;
`Report.demandConvergence` turns it into a failure for callers who want that.
-/

namespace SecantDescent

inductive Ending where
  | converged
  | maxIterations
  deriving DecidableEq, Repr

def Ending.text : Ending → String
  | converged => "gradient within tolerance"
  | maxIterations => "maximum iterations reached"

structure Report (α : Type) where
  point : Array α
  value : α
  gradient : Array α
  gradientNorm : α
  hessian : DenseMatrix α
  iterations : Nat
  evaluations : Tally
  ending : Ending

namespace Report

variable {α : Type}

/-- A report without calls, its norm taken from the gradient. -/
def of [Scalar α] (point : Array α) (value : α) (gradient : Array α)
    (hessian : DenseMatrix α) (iterations : Nat) (ending : Ending) : Report α where
  point
  value
  gradient
  gradientNorm := Scalar.largestMagnitude gradient.toList
  hessian
  iterations
  evaluations := {}
  ending

def withEvaluations (report : Report α) (evaluations : Tally) : Report α :=
  { report with evaluations }

def converged (report : Report α) : Bool :=
  report.ending = .converged

/-- Refuses a report whose budget was spent.  The tolerance that was not met
goes into the failure. -/
def demandConvergence (report : Report α) (tolerance : α) : Except (Failure α) (Report α) :=
  match report.ending with
  | .converged => .ok report
  | .maxIterations =>
      .error (.maxIterationsReached report.iterations report.value report.gradientNorm
        tolerance)

end Report

end SecantDescent
