/-!
# The log of a run

A run tells what it does as a list of events, each of which has a level, a
text and some data.  The first event names the method.
-/

namespace SecantDescent

inductive Event (α : Type) where
  | started (method : String)
  | iteration (iteration : Nat) (gradientNorm : α)
  | skippedUpdate (method quantity : String) (value : α)
  | alreadyConverged (value : α)
  | converged (iteration : Nat) (value gradientNorm : α)
  | exhausted (maxIterations : Nat) (value gradientNorm tolerance : α)

abbrev Log (α : Type) := Array (Event α)

inductive Level where
  | span
  | debug
  | info
  | warning
  deriving DecidableEq, Repr

namespace Event

variable {α : Type}

def level : Event α → Level
  | started _ => .span
  | iteration .. | skippedUpdate .. => .debug
  | alreadyConverged _ | converged .. => .info
  | exhausted .. => .warning

def text : Event α → String
  | started _ => "quasi_newton"
  | iteration .. => "quasi-Newton iteration"
  | skippedUpdate .. => "skipping degenerate Hessian update"
  | alreadyConverged _ => "initial point already converged"
  | converged .. => "converged"
  | exhausted .. => "iteration budget exhausted before convergence"

end Event

end SecantDescent
