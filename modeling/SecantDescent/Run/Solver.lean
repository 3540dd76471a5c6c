import SecantDescent.Direction
import SecantDescent.Run.Event
import SecantDescent.Run.Report
import SecantDescent.Run.Stopping
import SecantDescent.Secant.Refresh

/-!
# Minimisation by fixed steps

From a point `x` with gradient `g` and Hessian approximation `B`, an iteration
solves `B d = -g`, moves to `x + α d` and refreshes `B`.  A solver with an
update rule refreshes `B` from the gradients at the two points; a solver
without one asks the objective for its Hessian at every point, which makes it
Newton's method with a fixed step length.

The gradients and the Hessians that a run works with are checked for their shapes
and for finite entries.  The two gradients of a secant pair are only checked for
their lengths and are otherwise left to the rule, and the matrix that a rule answers
is only checked for finite entries.  The value of the objective is asked for once,
at the last point, and is reported as it is.
-/

namespace SecantDescent

structure Solver (σ α : Type) where
  step : StepRule α
  /-- How the Hessian approximation is refreshed; without a rule the objective
  is asked for its Hessian at every point. -/
  rule : Option (UpdateRule σ α)

structure Iterate (α : Type) (n : Nat) where
  count : Nat
  point : Vector α n
  gradient : Vector α n
  hessian : DenseMatrix α

/-- A run works on the caller's state, counts the calls it makes, and keeps a
log. -/
abbrev Session (σ α : Type) := Log α × Tally × σ

structure Outcome (σ α : Type) where
  result : Except (Failure α) (Report α)
  state : σ
  calls : Tally
  log : Log α

namespace Solver

variable {σ α : Type}

def standard [Precision α] (rule : Option (UpdateRule σ α)) : Solver σ α where
  step := .standard
  rule

def name (solver : Solver σ α) : String :=
  match solver.rule with
  | some rule => rule.name
  | none => "Newton"

def tell (event : Event α) : Eval (Session σ α) α Unit :=
  Eval.modifyTop fun log => log.push event

def callsMade : Eval (Session σ α) α Tally :=
  Eval.beneath Eval.readTop

variable [Scalar α]

/-- The solver with a step length, and with a safeguarded secant rule or none. -/
def ofSecant (stepLength : α) (method : Option (SecantRule × Safeguard α)) :
    Solver σ α where
  step := ⟨stepLength⟩
  rule := method.map fun rule => rule.1.toUpdateRule rule.2

/-- Refuses a point that is empty or not finite. -/
def validatePoint (point : Array α) : Except (Failure α) Unit :=
  if point.isEmpty then
    .error (.invalidArgument .emptyPoint)
  else if !Scalar.allFinite point.toList then
    .error (.invalidArgument .nonFinitePoint)
  else
    .ok ()

/-- Refuses a gradient of another length than the point, or not finite. -/
def checkGradient (n : Nat) (gradient : Array α) (iteration : Nat) :
    Except (Failure α) (Vector α n) :=
  if h : gradient.size = n then
    if Scalar.allFinite gradient.toList then
      .ok ⟨gradient, h⟩
    else
      .error (.nonFiniteValue "gradient" iteration)
  else
    .error (.wrongLength "gradient" n gradient.size)

/-- Refuses a Hessian that is not square of the size of the point, or not
finite. -/
def checkHessian (n : Nat) (hessian : DenseMatrix α) (iteration : Nat) :
    Except (Failure α) Unit :=
  if hessian.rows = n ∧ hessian.cols = n then
    if hessian.allFinite then
      .ok ()
    else
      .error (.nonFiniteValue "hessian" iteration)
  else
    .error (.notSquare "hessian_provider" n hessian.rows hessian.cols)

def moved {n : Nat} (point direction : Vector α n) (stepLength : α) : Vector α n :=
  point + direction.map (· * stepLength)

variable {n : Nat}

def gradientAt (f : Objective σ α) (point : Vector α n) (iteration : Nat) :
    Eval (Session σ α) α (Vector α n) := do
  .ofExcept (checkGradient n (← (f.counted.gradient point.toArray).beneath) iteration)

def hessianAt (f : Objective σ α) (point : Vector α n) (iteration : Nat) :
    Eval (Session σ α) α (DenseMatrix α) := do
  let hessian ← (f.counted.hessian point.toArray).beneath
  .ofExcept (checkHessian n hessian iteration)
  return hessian

def costAt (f : Objective σ α) (point : Vector α n) : Eval (Session σ α) α α :=
  (f.counted.cost point.toArray).beneath

/-- The matrix that a direction is computed from.  Without an update rule the
Hessian is asked for again from the second iteration on. -/
def matrixFor (solver : Solver σ α) (f : Objective σ α) (iterate : Iterate α n) :
    Eval (Session σ α) α (DenseMatrix α) :=
  if solver.rule.isNone && 0 < iterate.count then
    hessianAt f iterate.point (iterate.count + 1)
  else
    pure iterate.hessian

/-- Takes over the outcome of a refreshment: notes in the log that the matrix
was kept, and refuses a matrix that is not finite. -/
def adopt (method : String) (held : DenseMatrix α) (iteration : Nat) (refresh : Refresh α) :
    Eval (Session σ α) α (DenseMatrix α) := do
  if let .skipped degeneracy := refresh then
    tell (.skippedUpdate method degeneracy.quantity degeneracy.value)
  let matrix := refresh.matrix held
  if !matrix.allFinite then
    throw (.nonFiniteValue "hessian" iteration)
  return matrix

def matrixAfter (solver : Solver σ α) (f : Objective σ α) (held : DenseMatrix α)
    (point next : Vector α n) (iteration : Nat) : Eval (Session σ α) α (DenseMatrix α) :=
  match solver.rule with
  | none => pure held
  | some rule => do
      let refresh ←
        (rule.beneath.advance f.counted held point.toArray next.toArray).beneath
      adopt rule.name held iteration refresh

def advance (solver : Solver σ α) (f : Objective σ α) (iterate : Iterate α n) :
    Eval (Session σ α) α (Iterate α n) := do
  let iteration := iterate.count + 1
  let held ← solver.matrixFor f iterate
  let direction ← .ofExcept (descentDirection held iterate.gradient iteration)
  let next := moved iterate.point direction solver.step.stepLength
  if !Scalar.allFinite next.toList then
    throw (.nonFiniteValue "point" iteration)
  let hessian ← solver.matrixAfter f held iterate.point next iteration
  let gradient ← gradientAt f next iteration
  return ⟨iteration, next, gradient, hessian⟩

def iteration (solver : Solver σ α) (f : Objective σ α) (iterate : Iterate α n) :
    Eval (Session σ α) α (Iterate α n) := do
  let next ← solver.advance f iterate
  tell (.iteration next.count (Scalar.largestMagnitude next.gradient.toList))
  return next

/-- The last entry of a log, for the value at the last point. -/
def lastEvent (stopping : StoppingRule α) (iterate : Iterate α n) (value : α) :
    Ending → Event α
  | .converged =>
      if iterate.count = 0 then
        .alreadyConverged value
      else
        .converged iterate.count value (Scalar.largestMagnitude iterate.gradient.toList)
  | .maxIterations =>
      .exhausted stopping.maxIterations.toNat value
        (Scalar.largestMagnitude iterate.gradient.toList) stopping.tolerance

def conclude (f : Objective σ α) (stopping : StoppingRule α) (iterate : Iterate α n)
    (ending : Ending) : Eval (Session σ α) α (Report α) := do
  let value ← costAt f iterate.point
  tell (lastEvent stopping iterate value ending)
  let report := Report.of iterate.point.toArray value iterate.gradient.toArray
    iterate.hessian iterate.count ending
  return report.withEvaluations (← callsMade)

/-- Iterates until the gradient is within the tolerance, at most as many times
as the remaining budget allows. -/
def iterateFrom (solver : Solver σ α) (f : Objective σ α) (stopping : StoppingRule α) :
    Nat → Iterate α n → Eval (Session σ α) α (Report α)
  | 0, iterate => conclude f stopping iterate .maxIterations
  | remaining + 1, iterate => do
      let next ← solver.iteration f iterate
      if stopping.isSatisfiedBy next.gradient.toList then
        conclude f stopping next .converged
      else
        solver.iterateFrom f stopping remaining next

/-- The first iterate: the initial point with its gradient and its Hessian. -/
def initialIterate (f : Objective σ α) (point : Vector α n) :
    Eval (Session σ α) α (Iterate α n) := do
  let gradient ← gradientAt f point 0
  let hessian ← hessianAt f point 0
  return ⟨0, point, gradient, hessian⟩

/-- What a run does before its first decision: it opens the log, checks its
arguments and looks at the initial point. -/
def enter (solver : Solver σ α) (f : Objective σ α) (point : Array α)
    (stopping : StoppingRule α) : Eval (Session σ α) α (Iterate α point.size) := do
  tell (.started solver.name)
  .ofExcept stopping.validate
  .ofExcept solver.step.validate
  .ofExcept (validatePoint point)
  initialIterate f point.toVector

/-- A run: iterates from the initial point unless that point already meets the
tolerance. -/
def run (solver : Solver σ α) (f : Objective σ α) (point : Array α)
    (stopping : StoppingRule α) : Eval (Session σ α) α (Report α) := do
  let first ← solver.enter f point stopping
  if stopping.isSatisfiedBy first.gradient.toList then
    conclude f stopping first .converged
  else
    solver.iterateFrom f stopping stopping.maxIterations.toNat first

/-- Minimises an objective from a point, the callables being in the given
state. -/
def minimize (solver : Solver σ α) (f : Objective σ α) (point : Array α)
    (stopping : StoppingRule α) (state : σ) : Outcome σ α :=
  let (result, log, calls, state) := (solver.run f point stopping).outcome (#[], {}, state)
  { result, state, calls, log }

end Solver

end SecantDescent
