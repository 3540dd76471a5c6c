import SecantDescent.Secant.Pair

/-!
# Secant updates

Two rules that refresh a Hessian approximation `B` so that it satisfies the
secant equation `B s = y`.

* The rule of Broyden, Fletcher, Goldfarb and Shanno removes the curvature of
  `B` along the step and adds that of the pair,
  `B - (B s)(sᵀ B) / (sᵀ B s) + y yᵀ / (yᵀ s)`, and averages the result with
  its transpose.
* Broyden's good rule makes the smallest change in Frobenius norm,
  `B + (y - B s) sᵀ / (sᵀ s)`.

Each rule divides by quantities that can vanish.  Such a quantity is compared
with the scale of the data it was computed from, and the comparisons are
written so that a value that is not a number counts as vanishing.
-/

namespace SecantDescent

inductive SecantRule where
  | bfgs
  | goodBroyden
  deriving DecidableEq, Repr

/-- A quantity of an update that was found to be too close to zero, or not to
be finite. -/
structure Degeneracy (α : Type) where
  quantity : String
  value : α

namespace SecantRule

def name : SecantRule → String
  | bfgs => "BFGS"
  | goodBroyden => "Good Broyden"

variable {α : Type} [Scalar α] {n : Nat}

/-- An updated matrix is only usable if all its entries are finite. -/
def finiteUpdate (updated : Grid α n n) : Except (Degeneracy α) (Grid α n n) :=
  if updated.allFinite then
    .ok updated
  else
    .error ⟨"updated Hessian", Scalar.notANumber⟩

def symmetrized (B : Grid α n n) : Grid α n n :=
  (B + B.transpose).mapEntries (· * Scalar.half)

def bfgsUpdate (tolerance : α) (B : Grid α n n) (s y : Vector α n) :
    Except (Degeneracy α) (Grid α n n) :=
  let stepNorm := Dense.norm s
  let curvature := Dense.dot y s
  if ¬ tolerance * Dense.norm y * stepNorm < Scalar.abs curvature ∨ stepNorm == 0 then
    .error ⟨"y^T s", curvature⟩
  else
    let image := B.mulVec s
    let form := Dense.dot s image
    if ¬ tolerance * B.frobenius * stepNorm * stepNorm < Scalar.abs form then
      .error ⟨"s^T B s", form⟩
    else
      let removed := (Grid.outer image (B.vecMul s)).mapEntries (· / form)
      let added := (Grid.outer y y).mapEntries (· / curvature)
      finiteUpdate (symmetrized (B - removed + added))

def squaredLength (s : Vector α n) : α :=
  Dense.norm s * Dense.norm s

/-- The update of rank one, for a step that is not zero. -/
def goodBroydenUpdate (tolerance : α) (B : Grid α n n) (s y : Vector α n) :
    Except (Degeneracy α) (Grid α n n) :=
  let residual := y - B.mulVec s
  if ¬ tolerance * Dense.norm residual < B.frobenius * Dense.norm s then
    .error ⟨"y - B s", Dense.norm residual⟩
  else
    finiteUpdate (B + (Grid.outer residual s).mapEntries (· / squaredLength s))

/-- What a rule demands of the step before it looks at the gradients. -/
def checkStep (rule : SecantRule) (s : Vector α n) : Except (Degeneracy α) Unit :=
  match rule with
  | bfgs => .ok ()
  | goodBroyden =>
      if 0 < squaredLength s then .ok () else .error ⟨"s^T s", squaredLength s⟩

/-- The updated matrix, for a step that has passed its check. -/
def update (rule : SecantRule) (tolerance : α) (B : Grid α n n) (s y : Vector α n) :
    Except (Degeneracy α) (Grid α n n) :=
  match rule with
  | bfgs => bfgsUpdate tolerance B s y
  | goodBroyden => goodBroydenUpdate tolerance B s y

end SecantRule

end SecantDescent
