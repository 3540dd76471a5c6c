import SecantDescent.Dense.Grid

/-!
# Gaussian elimination with partial pivoting

A square linear system is a vector of equations.  `solveEquations` picks the
equation whose leading coefficient has the largest magnitude, uses it to remove
the leading unknown from all the others, solves the smaller system that is
left, and obtains the leading unknown by substitution.  The recursion is on the
number of unknowns.

The system has no solution here exactly when the chosen leading coefficient is
zero at some stage.  Magnitudes that are not numbers never win the choice
against an earlier equation, so such a coefficient is divided by, and the
missing value shows in the solution.
-/

namespace SecantDescent.Dense

structure Equation (α : Type) (n : Nat) where
  coeffs : Vector α n
  rhs : α

variable {α : Type} [Scalar α] {n : Nat}

/-- Removes the leading unknown from `equation` by subtracting a multiple of
`pivot`; `inverse` is the reciprocal of the pivot's leading coefficient. -/
def Equation.eliminate (pivot : Equation α (n + 1)) (inverse : α)
    (equation : Equation α (n + 1)) : Equation α n :=
  let factor := equation.coeffs[0] * inverse
  { coeffs := Vector.ofFn fun k : Fin n =>
      -pivot.coeffs[k.succ] * factor + equation.coeffs[k.succ]
    rhs := -pivot.rhs * factor + equation.rhs }

/-- The leading unknown of an equation whose other unknowns are known, the
known terms being moved to the right-hand side from the last to the first. -/
def Equation.leadingUnknown (equation : Equation α (n + 1)) (known : Vector α n) : α :=
  (List.finRange n).foldr
    (fun k rest => -known.get k * equation.coeffs[k.succ] + rest) equation.rhs /
      equation.coeffs[0]

/-- The number of the first equation whose leading coefficient no other one
exceeds in magnitude. -/
def pivotIndex (system : Vector (Equation α (n + 1)) (n + 1)) : Fin (n + 1) :=
  (List.finRange (n + 1)).foldl
    (fun best r =>
      if Scalar.abs system[best].coeffs[0] < Scalar.abs system[r].coeffs[0] then r
      else best) 0

/-- The equations other than the one numbered `p`, the first equation taking
its place. -/
def others {β : Type} (system : Vector β (n + 1)) (p : Fin (n + 1)) : Vector β n :=
  (system.set p system[0]).tail

/-- Solves a square system, unless a leading coefficient vanishes. -/
def solveEquations : (n : Nat) → Vector (Equation α n) n → Option (Vector α n)
  | 0, _ => some #v[]
  | n + 1, system =>
      let p := pivotIndex system
      let pivot := system[p]
      if pivot.coeffs[0] == 0 then
        none
      else
        let inverse := (1 : α) / pivot.coeffs[0]
        let reduced := (others system p).map (pivot.eliminate inverse)
        (solveEquations n reduced).map fun known =>
          known.insertIdx 0 (pivot.leadingUnknown known)

/-- Solves `A x = b`, unless elimination meets a zero pivot. -/
def solve (A : Grid α n n) (b : Vector α n) : Option (Vector α n) :=
  solveEquations n (Vector.zipWith Equation.mk A b)

end SecantDescent.Dense
