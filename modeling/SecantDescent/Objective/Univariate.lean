import SecantDescent.Objective.Basic

/-!
# Objectives of one variable

A function of one variable with its first two derivatives.  Points are vectors
of length one, and the second derivative appears as a matrix with one entry.
-/

namespace SecantDescent.Objective

variable {σ α : Type}

def coordinate (x : Array α) : Except (Failure α) α :=
  if h : x.size = 1 then
    .ok x[0]
  else
    .error (.wrongLength "initial_point" 1 x.size)

/-- The objective of a function of one variable and its first two
derivatives. -/
def univariate (value derivative secondDerivative : α → Except (Failure α) α) :
    Objective σ α :=
  .ofFunctions
    (fun x => do value (← coordinate x))
    (fun x => do return #[← derivative (← coordinate x)])
    (fun x => do return .ofGrid #v[#v[← secondDerivative (← coordinate x)]])

end SecantDescent.Objective
