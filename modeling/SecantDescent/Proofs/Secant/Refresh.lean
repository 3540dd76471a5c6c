import SecantDescent.Secant.Refresh

/-!
# Refreshing a square matrix

A refreshment looks at the shapes, then at the step, then computes the update;
whatever it finds degenerate goes through the safeguard.  For operands of one
size `n` this is `attempt`, followed by `settle`.
-/

namespace SecantDescent

variable {α : Type} {n : Nat}

namespace SecantRule

variable [Scalar α] {rule : SecantRule} {safeguard : Safeguard α}

/-- The update of a matrix, or the first quantity found degenerate on the way. -/
def attempt (rule : SecantRule) (tolerance : α) (B : Grid α n n) (s y : Vector α n) :
    Except (Degeneracy α) (Grid α n n) :=
  match rule.checkStep s with
  | .error degeneracy => .error degeneracy
  | .ok () => rule.update tolerance B s y

theorem finiteUpdate_eq_ok_iff {B B' : Grid α n n} :
    finiteUpdate B = .ok B' ↔ B.allFinite = true ∧ B' = B := by
  unfold finiteUpdate
  split
  next hfinite => simp [hfinite, eq_comm]
  next hfinite => simp [hfinite]

/-- The update of rank two is made exactly when both denominators pass their
tests and all entries of the result are finite. -/
theorem bfgsUpdate_eq_ok_iff {tolerance : α} {B B' : Grid α n n} {s y : Vector α n} :
    bfgsUpdate tolerance B s y = .ok B' ↔
      (tolerance * Dense.norm y * Dense.norm s < Scalar.abs (Dense.dot y s) ∧
        (Dense.norm s == 0) = false) ∧
      tolerance * B.frobenius * Dense.norm s * Dense.norm s <
        Scalar.abs (Dense.dot s (B.mulVec s)) ∧
      B'.allFinite = true ∧
      B' = symmetrized
        (B - (Grid.outer (B.mulVec s) (B.vecMul s)).mapEntries (· / Dense.dot s (B.mulVec s)) +
          (Grid.outer y y).mapEntries (· / Dense.dot y s)) := by
  simp only [bfgsUpdate]
  split
  next hcurvature =>
    have hfails : ¬ (tolerance * Dense.norm y * Dense.norm s < Scalar.abs (Dense.dot y s) ∧
        (Dense.norm s == 0) = false) := by
      intro h
      exact hcurvature.elim (fun hless => hless h.1) (fun hzero => by simp [hzero] at h)
    simp [hfails]
  next hcurvature =>
    obtain ⟨hless, hstep⟩ := not_or.mp hcurvature
    have hpasses := And.intro (Decidable.not_not.mp hless) (Bool.eq_false_iff.mpr hstep)
    split
    next hform => simp [hform]
    next hform =>
      rw [finiteUpdate_eq_ok_iff]
      constructor
      · rintro ⟨hfinite, rfl⟩
        exact ⟨hpasses, Decidable.not_not.mp hform, hfinite, rfl⟩
      · rintro ⟨-, -, hfinite, rfl⟩
        exact ⟨hfinite, rfl⟩

theorem goodBroydenUpdate_eq_ok_iff {tolerance : α} {B B' : Grid α n n} {s y : Vector α n} :
    goodBroydenUpdate tolerance B s y = .ok B' ↔
      tolerance * Dense.norm (y - B.mulVec s) < B.frobenius * Dense.norm s ∧
      B'.allFinite = true ∧
      B' = B + (Grid.outer (y - B.mulVec s) s).mapEntries (· / squaredLength s) := by
  simp only [goodBroydenUpdate]
  by_cases hresidual :
      tolerance * Dense.norm (y - B.mulVec s) < B.frobenius * Dense.norm s
  · rw [if_neg (not_not_intro hresidual), finiteUpdate_eq_ok_iff]
    constructor
    · intro h
      rw [h.2]
      exact ⟨hresidual, h.1, rfl⟩
    · intro h
      rw [← h.2.2]
      exact ⟨h.2.1, rfl⟩
  · simp [hresidual]

/-- The rule of rank one looks at the step before it looks at anything else. -/
theorem goodBroyden_attempt_eq_ok_iff {tolerance : α} {B B' : Grid α n n} {s y : Vector α n} :
    goodBroyden.attempt tolerance B s y = .ok B' ↔
      0 < squaredLength s ∧ goodBroydenUpdate tolerance B s y = .ok B' := by
  rw [attempt, checkStep]
  by_cases hstep : 0 < squaredLength s
  · rw [if_pos hstep]
    exact (and_iff_right hstep).symm
  · simp [hstep]

theorem refresh_ofGrid (B : Grid α n n) (s y : Vector α n) :
    rule.refresh safeguard (.ofGrid B) ⟨s.toArray, y.toArray⟩ =
      rule.settle safeguard (rule.attempt safeguard.tolerance B s y) := by
  obtain ⟨s, rfl⟩ := s
  have hB : (DenseMatrix.ofGrid B).toGrid? s.size s.size = some B :=
    DenseMatrix.toGrid?_ofGrid B
  have hy : y.toArray.size = SecantPair.length ⟨s, y.toArray⟩ := y.size_toArray
  simp only [refresh, attempt, SecantPair.length, hB]
  split
  next degeneracy hstep =>
    rw [show rule.checkStep (⟨s, rfl⟩ : Vector α s.size) = .error degeneracy from hstep]
  next hstep =>
    rw [show rule.checkStep (⟨s, rfl⟩ : Vector α s.size) = .ok () from hstep]
    exact dif_pos hy

omit [Scalar α] in
/-- Operands of one size are those of `refresh_ofGrid`. -/
theorem exists_operands {held : DenseMatrix α} {pair : SecantPair α} (hrows : held.rows = n)
    (hcols : held.cols = n) (hs : pair.s.size = n) (hy : pair.y.size = n) :
    ∃ (B : Grid α n n) (s y : Vector α n),
      held = .ofGrid B ∧ pair = ⟨s.toArray, y.toArray⟩ := by
  obtain ⟨B, rfl⟩ := DenseMatrix.exists_eq_ofGrid hrows hcols
  exact ⟨B, ⟨pair.s, hs⟩, ⟨pair.y, hy⟩, rfl, rfl⟩

omit [Scalar α] in
theorem settle_eq_ok {attempted : Except (Degeneracy α) (Grid α n n)} {refresh : Refresh α}
    (h : rule.settle safeguard attempted = .ok refresh) :
    (∃ B, attempted = .ok B ∧ refresh = .updated (.ofGrid B)) ∨
      ∃ degeneracy, attempted = .error degeneracy ∧ safeguard.policy = .skip ∧
        refresh = .skipped degeneracy := by
  cases attempted with
  | ok B =>
      cases h
      exact .inl ⟨B, rfl, rfl⟩
  | error degeneracy =>
      cases hpolicy : safeguard.policy with
      | skip =>
          simp only [settle, hpolicy, Except.ok.injEq] at h
          exact .inr ⟨degeneracy, rfl, rfl, h.symm⟩
      | error => simp [settle, hpolicy] at h

/-- Where a degenerate update is an error, a refreshment that succeeds is an
update. -/
theorem strict_refresh_eq_ok_iff {tolerance : α} {B : Grid α n n} {s y : Vector α n}
    {refresh : Refresh α} :
    rule.refresh ⟨.error, tolerance⟩ (.ofGrid B) ⟨s.toArray, y.toArray⟩ = .ok refresh ↔
      ∃ B', rule.attempt tolerance B s y = .ok B' ∧ refresh = .updated (.ofGrid B') := by
  rw [refresh_ofGrid]
  constructor
  · intro h
    rcases settle_eq_ok h with hupdated | ⟨degeneracy, -, hpolicy, -⟩
    · exact hupdated
    · cases hpolicy
  · rintro ⟨B', hattempt, rfl⟩
    rw [hattempt]
    rfl

theorem exists_strict_refresh_iff {tolerance : α} {B : Grid α n n} {s y : Vector α n} :
    (∃ refresh,
      rule.refresh ⟨.error, tolerance⟩ (.ofGrid B) ⟨s.toArray, y.toArray⟩ = .ok refresh) ↔
      ∃ B', rule.attempt tolerance B s y = .ok B' := by
  constructor
  · rintro ⟨refresh, h⟩
    obtain ⟨B', hattempt, -⟩ := strict_refresh_eq_ok_iff.mp h
    exact ⟨B', hattempt⟩
  · rintro ⟨B', hattempt⟩
    exact ⟨.updated (.ofGrid B'), strict_refresh_eq_ok_iff.mpr ⟨B', hattempt, rfl⟩⟩

omit [Scalar α] in
theorem settle_eq_error {attempted : Except (Degeneracy α) (Grid α n n)} {failure : Failure α}
    (h : rule.settle safeguard attempted = .error failure) :
    ∃ degeneracy, attempted = .error degeneracy ∧ safeguard.policy = .error ∧
      failure = .degenerateUpdate rule.name degeneracy.quantity degeneracy.value := by
  cases attempted with
  | ok B => cases h
  | error degeneracy =>
      cases hpolicy : safeguard.policy with
      | skip => simp [settle, hpolicy] at h
      | error =>
          simp only [settle, hpolicy, Except.error.injEq] at h
          exact ⟨degeneracy, rfl, rfl, h.symm⟩

/-- Operands of one size are refused only when the update is degenerate. -/
theorem degenerate_of_refresh_eq_error {held : DenseMatrix α} {pair : SecantPair α}
    {failure : Failure α} (hrows : held.rows = n) (hcols : held.cols = n)
    (hs : pair.s.size = n) (hy : pair.y.size = n)
    (h : rule.refresh safeguard held pair = .error failure) :
    ∃ quantity value, safeguard.policy = .error ∧
      failure = .degenerateUpdate rule.name quantity value := by
  obtain ⟨B, s, y, rfl, rfl⟩ := exists_operands hrows hcols hs hy
  rw [refresh_ofGrid] at h
  obtain ⟨degeneracy, -, hpolicy, hfailure⟩ := settle_eq_error h
  exact ⟨degeneracy.quantity, degeneracy.value, hpolicy, hfailure⟩

theorem refresh_of_misfit {held : DenseMatrix α} {pair : SecantPair α}
    (hshape : ¬ (held.rows = pair.length ∧ held.cols = pair.length)) :
    rule.refresh safeguard held pair =
      .error (.notSquare "hessian" pair.length held.rows held.cols) := by
  rw [refresh, DenseMatrix.toGrid?_eq_none_iff.mpr hshape]

/-- A pair of two steps of one size is refused for the shape of the matrix, or
because the update is degenerate. -/
theorem refresh_eq_error {held : DenseMatrix α} {pair : SecantPair α} {failure : Failure α}
    (hpair : pair.y.size = pair.s.size)
    (h : rule.refresh safeguard held pair = .error failure) :
    failure = .notSquare "hessian" pair.length held.rows held.cols ∨
      ∃ quantity value, safeguard.policy = .error ∧
        failure = .degenerateUpdate rule.name quantity value := by
  by_cases hshape : held.rows = pair.length ∧ held.cols = pair.length
  · exact .inr (degenerate_of_refresh_eq_error hshape.1 hshape.2 rfl hpair h)
  · rw [refresh_of_misfit hshape] at h
    exact .inl (Except.error.inj h).symm

/-- A refreshed matrix is as large as the one before. -/
theorem shape_of_refresh {held : DenseMatrix α} {pair : SecantPair α} {refresh : Refresh α}
    (hrows : held.rows = n) (hcols : held.cols = n) (hs : pair.s.size = n)
    (hy : pair.y.size = n) (h : rule.refresh safeguard held pair = .ok refresh) :
    (refresh.matrix held).rows = n ∧ (refresh.matrix held).cols = n := by
  obtain ⟨B, s, y, rfl, rfl⟩ := exists_operands hrows hcols hs hy
  rw [refresh_ofGrid] at h
  rcases settle_eq_ok h with ⟨B', -, rfl⟩ | ⟨degeneracy, -, -, rfl⟩
  · exact ⟨rfl, rfl⟩
  · exact ⟨rfl, rfl⟩

end SecantRule

end SecantDescent
