import SecantDescent.Objective.Basic

/-!
# Recorded answers

An objective that ignores the point it is given and plays back answers: the
first call of a callable gets the first answer of its reel, and so on.  The
last answer of a reel is given again and again.  Recorded objectives stand in
for callables whose answers change from call to call.
-/

namespace SecantDescent

/-- Answers to be given in order; an answer is a value or the reason of a
failed evaluation. -/
abbrev Reel (β : Type) := List (Except String β)

namespace Reel

variable {α β : Type}

/-- The next answer of a reel as a computation on it. -/
def play (reel : Reel β) : Except (Failure α) β × Reel β :=
  match reel with
  | [] => (.error .shapeClash, [])
  | answer :: rest =>
      (answer.mapError .evaluation, if rest.isEmpty then reel else rest)

end Reel

structure Recording (α : Type) where
  cost : Reel α
  gradient : Reel (Array α)
  hessian : Reel (DenseMatrix α)

/-- The objective that plays back a recording, which is its state. -/
def Objective.recorded {α : Type} : Objective (Recording α) α where
  cost _ := .of fun r => let (answer, rest) := r.cost.play; (answer, { r with cost := rest })
  gradient _ := .of fun r =>
    let (answer, rest) := r.gradient.play; (answer, { r with gradient := rest })
  hessian _ := .of fun r =>
    let (answer, rest) := r.hessian.play; (answer, { r with hessian := rest })

end SecantDescent
