import SecantDescent.Objective.Basic

/-!
# Watching an objective

Two wrappers that answer exactly as the objective they wrap.  One counts the
calls of each callable, the other keeps a trace of the calls with their
arguments.  A call is recorded before it is answered, so a failing call is
recorded as well.
-/

namespace SecantDescent

structure Tally where
  cost : Nat := 0
  gradient : Nat := 0
  hessian : Nat := 0
  deriving DecidableEq, Repr

namespace Tally

def countCost (tally : Tally) : Tally :=
  { tally with cost := tally.cost + 1 }

def countGradient (tally : Tally) : Tally :=
  { tally with gradient := tally.gradient + 1 }

def countHessian (tally : Tally) : Tally :=
  { tally with hessian := tally.hessian + 1 }

end Tally

inductive Call (α : Type) where
  | cost (point : Array α)
  | gradient (point : Array α)
  | hessian (point : Array α)
  | refresh (held : DenseMatrix α) (s y : Array α)

abbrev Trace (α : Type) := Array (Call α)

variable {σ α : Type}

namespace Eval

/-- A computation that changes the state on top before it starts. -/
def after {τ β : Type} (change : τ → τ) (act : Eval σ α β) : Eval (τ × σ) α β := do
  modifyTop change
  act.beneath

def recording {β : Type} (call : Call α) (act : Eval σ α β) : Eval (Trace α × σ) α β :=
  act.after fun trace => trace.push call

end Eval

namespace Objective

def counted (f : Objective σ α) : Objective (Tally × σ) α where
  cost x := (f.cost x).after Tally.countCost
  gradient x := (f.gradient x).after Tally.countGradient
  hessian x := (f.hessian x).after Tally.countHessian

def traced (f : Objective σ α) : Objective (Trace α × σ) α where
  cost x := (f.cost x).recording (.cost x)
  gradient x := (f.gradient x).recording (.gradient x)
  hessian x := (f.hessian x).recording (.hessian x)

end Objective

end SecantDescent
