import SecantDescent.Dense.Elimination
import SecantDescent.Failure.Basic

/-!
# Descent directions

The direction of a step is the solution `d` of `B d = -g` for the Hessian
approximation `B` and the gradient `g`.  With one unknown it is a division;
otherwise the system is solved by elimination with partial pivoting.
-/

namespace SecantDescent

variable {α : Type} [Scalar α]

/-- The solution of `B d = -g`, where there is one.  With one unknown the
coefficient has to be finite and not zero. -/
def solveForDirection : {n : Nat} → Grid α n n → Vector α n → Option (Vector α n)
  | 1, B, g =>
      if B[0][0] == 0 || !Scalar.isFinite B[0][0] then
        none
      else
        some #v[-g[0] / B[0][0]]
  | _, B, g => Dense.solve B (-g)

/-- The descent direction for a gradient.  A Hessian approximation without a
finite solution counts as singular; the failure names the iteration. -/
def descentDirection {n : Nat} (hessian : DenseMatrix α) (gradient : Vector α n)
    (iteration : Nat) : Except (Failure α) (Vector α n) :=
  match hessian.toGrid? n n with
  | none => .error (.notSquare "hessian" n hessian.rows hessian.cols)
  | some B =>
      match solveForDirection B gradient with
      | none => .error (.singularMatrix iteration)
      | some direction =>
          if Scalar.allFinite direction.toList then
            .ok direction
          else
            .error (.singularMatrix iteration)

theorem descentDirection_of_misfit {n : Nat} {hessian : DenseMatrix α}
    (hshape : ¬ (hessian.rows = n ∧ hessian.cols = n)) (gradient : Vector α n)
    (iteration : Nat) :
    descentDirection hessian gradient iteration =
      .error (.notSquare "hessian" n hessian.rows hessian.cols) := by
  rw [descentDirection, DenseMatrix.toGrid?_eq_none_iff.mpr hshape]

end SecantDescent
