import SecantDescent.Proofs.Scalar.Extended
import SecantDescent.Proofs.Secant.Outcomes
import SecantDescent.Proofs.Secant.Symmetry

/-!
# Pairs that are not finite

Every component of the change of the gradient goes into an entry of the matrix
that a rule makes of it, and a rule hands out no matrix with an entry that is not
finite.  So a pair is degenerate as soon as one of its two gradients is not finite.
-/

namespace SecantDescent

open Scalar ExtendedScalar

variable {α : Type} [Scalar α] {n : Nat}

theorem Scalar.allFinite_toList_iff {xs : Vector α n} :
    allFinite xs.toList = true ↔ ∀ i, isFinite (xs.get i) = true := by
  simp only [allFinite, Vector.all_toList, Vector.all_eq_true]
  exact ⟨fun h i => h i i.isLt, fun h i hi => h ⟨i, hi⟩⟩

/-- A difference has finite components only if its two parts have. -/
theorem finite_of_difference [ExtendedSub α] {xs ys : Array α} (hxs : xs.size = n)
    (hys : ys.size = n) (h : allFinite (xs.zipWith (· - ·) ys).toList = true) :
    allFinite xs.toList = true ∧ allFinite ys.toList = true := by
  obtain ⟨xs, rfl⟩ : ∃ v : Vector α n, v.toArray = xs := ⟨⟨xs, hxs⟩, rfl⟩
  obtain ⟨ys, rfl⟩ : ∃ v : Vector α n, v.toArray = ys := ⟨⟨ys, hys⟩, rfl⟩
  have hdifference : allFinite (xs.zipWith (· - ·) ys).toList = true := h
  rw [Scalar.allFinite_toList_iff] at hdifference
  have hparts (i : Fin n) :
      isFinite (xs.get i) = true ∧ isFinite (ys.get i) = true := by
    have hentry := hdifference i
    have hsplit : (xs.zipWith (· - ·) ys).get i = xs.get i - ys.get i :=
      Vector.getElem_zipWith i.isLt
    rw [hsplit] at hentry
    exact ExtendedSub.finite_of_sub hentry
  exact ⟨allFinite_toList_iff.mpr fun i => (hparts i).1,
    allFinite_toList_iff.mpr fun i => (hparts i).2⟩

namespace SecantRule

variable {rule : SecantRule} {safeguard : Safeguard α} {tolerance : α}
variable {B B' : Grid α n n} {s y : Vector α n}

/-- The square of a component of the change is on the diagonal of what is added. -/
theorem finite_of_bfgsUpdate [ExtendedScalar α] (h : bfgsUpdate tolerance B s y = .ok B')
    (i : Fin n) : isFinite (y.get i) = true := by
  obtain ⟨-, -, hfinite, rfl⟩ := bfgsUpdate_eq_ok_iff.mp h
  have hentry := Grid.allFinite_iff.mp hfinite i i
  simp only [symmetrized, Grid.outer, Grid.entry_mapEntries, Grid.entry_add,
    Grid.entry_ofFn] at hentry
  have hsum := (finite_of_mul hentry).1
  have hadded := (finite_of_add (finite_of_add hsum).1).2
  exact (finite_of_mul (finite_of_div hadded).1).1

/-- A component of the residual is a factor of every entry in its row. -/
theorem finite_of_goodBroydenUpdate [ExtendedSub α]
    (h : goodBroydenUpdate tolerance B s y = .ok B') (i : Fin n) :
    isFinite (y.get i) = true := by
  obtain ⟨-, hfinite, rfl⟩ := goodBroydenUpdate_eq_ok_iff.mp h
  have hentry := Grid.allFinite_iff.mp hfinite i i
  simp only [Grid.outer, Grid.entry_mapEntries, Grid.entry_add, Grid.entry_ofFn] at hentry
  have hadded := (finite_of_add hentry).2
  have hresidual := (finite_of_mul (finite_of_div hadded).1).1
  simp only [Fin.getElem_fin, Vector.getElem_sub] at hresidual
  exact (ExtendedSub.finite_of_sub hresidual).1

theorem finite_of_attempt [ExtendedSub α] (h : rule.attempt tolerance B s y = .ok B') :
    allFinite y.toList = true := by
  apply allFinite_toList_iff.mpr
  cases rule with
  | bfgs =>
      have hupdate : bfgsUpdate tolerance B s y = .ok B' := h
      exact finite_of_bfgsUpdate hupdate
  | goodBroyden => exact finite_of_goodBroydenUpdate (goodBroyden_attempt_eq_ok_iff.mp h).2

/-- The answers to a degenerate update: the matrix is kept, or the update is refused,
as the safeguard says. -/
inductive AnswersDegenerate (rule : SecantRule) (safeguard : Safeguard α) :
    Except (Failure α) (Refresh α) → Prop
  | skipped (degeneracy) (lenient : safeguard.policy = .skip) :
      AnswersDegenerate rule safeguard (.ok (.skipped degeneracy))
  | refused (quantity value) (strict : safeguard.policy = .error) :
      AnswersDegenerate rule safeguard (.error (.degenerateUpdate rule.name quantity value))

/-- A change with a component that is not finite makes an update degenerate. -/
theorem answersDegenerate_of_not_finite [ExtendedSub α] {held : DenseMatrix α}
    {pair : SecantPair α} (hrows : held.rows = n) (hcols : held.cols = n)
    (hs : pair.s.size = n) (hy : pair.y.size = n) (hchange : allFinite pair.y.toList = false) :
    rule.AnswersDegenerate safeguard (rule.refresh safeguard held pair) := by
  obtain ⟨B, s, y, rfl, rfl⟩ := exists_operands hrows hcols hs hy
  rw [refresh_ofGrid]
  cases hattempt : rule.attempt safeguard.tolerance B s y with
  | ok B' =>
      have hfinite : allFinite y.toList = true := finite_of_attempt hattempt
      have hchange' : allFinite y.toList = false := hchange
      rw [hfinite] at hchange'
      cases hchange'
  | error degeneracy =>
      cases hpolicy : safeguard.policy with
      | skip =>
          simp only [settle, hpolicy]
          exact .skipped degeneracy hpolicy
      | error =>
          simp only [settle, hpolicy]
          exact .refused _ _ hpolicy

end SecantRule

end SecantDescent
