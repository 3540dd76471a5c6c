import SecantDescent.Proofs.Exact.RankOne
import SecantDescent.Proofs.Exact.RankTwo
import SecantDescent.Proofs.Exact.Run

/-!
# Pairs on the secant equation

A matrix that already maps the step to the change of the gradient has nothing
to learn from the pair.  The correction of either rule is then zero, for the
rule of rank two as long as the matrix is symmetric.  A run that skips
degenerate updates therefore keeps such a matrix, whichever branch of the rule
it goes through.  An update that is made leads to such a matrix, which the same
pair does not change again, even where the second update is degenerate.
-/

namespace SecantDescent

open SecantDescent.Dense Matrix

variable {n : Nat}

theorem rankTwo_eq_self {B : Matrix (Fin n) (Fin n) ℝ} {s y : Fin n → ℝ} (hB : B.IsSymm)
    (hsecant : B *ᵥ s = y) : rankTwo B s y = B := by
  have hform : s ⬝ᵥ B *ᵥ s = y ⬝ᵥ s := by
    rw [hsecant, dotProduct_comm]
  rw [rankTwo, vecMul_of_isSymm hB, hform, hsecant, sub_add_cancel]

namespace SecantRule

variable {rule : SecantRule} {tolerance : ℝ} {B B' : Grid ℝ n n} {s y : Vector ℝ n}

theorem goodBroydenUpdate_eq_self (hsecant : B.toMatrix *ᵥ coords s = coords y)
    (h : goodBroydenUpdate tolerance B s y = .ok B') : B' = B := by
  apply Grid.toMatrix_injective
  rw [goodBroydenUpdate_exact h, rankOne_eq_self hsecant]

theorem bfgsUpdate_eq_self (htolerance : 0 ≤ tolerance) (hB : B.toMatrix.IsSymm)
    (hsecant : B.toMatrix *ᵥ coords s = coords y)
    (h : bfgsUpdate tolerance B s y = .ok B') : B' = B := by
  apply Grid.toMatrix_injective
  rw [(bfgsUpdate_exact_of_isSymm htolerance hB h).2.2, rankTwo_eq_self hB hsecant]

theorem attempt_eq_self (htolerance : 0 ≤ tolerance)
    (hB : rule = .bfgs → B.toMatrix.IsSymm) (hsecant : B.toMatrix *ᵥ coords s = coords y)
    (h : rule.attempt tolerance B s y = .ok B') : B' = B := by
  cases rule with
  | bfgs => exact bfgsUpdate_eq_self htolerance (hB rfl) hsecant h
  | goodBroyden =>
      exact goodBroydenUpdate_eq_self hsecant (goodBroyden_attempt_eq_ok_iff.mp h).2

/-! ## The same pair again -/

theorem bfgsUpdate_on_secant (htolerance : 0 ≤ tolerance)
    (h : bfgsUpdate tolerance B s y = .ok B') :
    B'.toMatrix.IsSymm ∧ B'.toMatrix *ᵥ coords s = coords y := by
  obtain ⟨hform, hcurvature, hmatrix⟩ := bfgsUpdate_exact htolerance h
  rw [hmatrix]
  refine ⟨(isSymm_add_transpose_self _).smul _, ?_⟩
  rw [smul_mulVec, add_mulVec, rankTwo_mulVec_step hform hcurvature,
    rankTwo_transpose_mulVec_step hform hcurvature, ← two_smul ℝ, smul_smul]
  norm_num

/-- An update that is made leads to a matrix that `attempt_eq_self` is about. -/
theorem attempt_on_secant (htolerance : 0 ≤ tolerance)
    (h : rule.attempt tolerance B s y = .ok B') :
    (rule = .bfgs → B'.toMatrix.IsSymm) ∧ B'.toMatrix *ᵥ coords s = coords y := by
  cases rule with
  | bfgs =>
      obtain ⟨hsymm, hsecant⟩ := bfgsUpdate_on_secant htolerance h
      exact ⟨fun _ => hsymm, hsecant⟩
  | goodBroyden =>
      obtain ⟨hstep, hmatrix⟩ := goodBroyden_attempt_exact h
      rw [hmatrix]
      exact ⟨nofun, rankOne_mulVec_step _ hstep⟩

theorem exists_skipping_refresh (rule : SecantRule) (tolerance : ℝ) (B : Grid ℝ n n)
    (s y : Vector ℝ n) :
    ∃ refresh,
      rule.refresh ⟨.skip, tolerance⟩ (.ofGrid B) ⟨s.toArray, y.toArray⟩ = .ok refresh ∧
      (refresh.matrix (.ofGrid B) = .ofGrid B ∨
        ∃ B', rule.attempt tolerance B s y = .ok B' ∧
        refresh.matrix (.ofGrid B) = .ofGrid B') := by
  rw [refresh_ofGrid]
  cases rule.attempt tolerance B s y with
  | ok B' => exact ⟨.updated (.ofGrid B'), rfl, .inr ⟨B', rfl, rfl⟩⟩
  | error cause => exact ⟨.skipped cause, rfl, .inl rfl⟩

/-- A pair that has refreshed a matrix does not change it when it is taken again. -/
theorem refresh_twice (rule : SecantRule) (B : Grid ℝ n n) (s y : Vector ℝ n) (tolerance : ℝ)
    (htolerance : 0 ≤ tolerance) :
    ∃ refresh again,
      rule.refresh ⟨.skip, tolerance⟩ (.ofGrid B) ⟨s.toArray, y.toArray⟩ = .ok refresh ∧
      rule.refresh ⟨.skip, tolerance⟩ (refresh.matrix (.ofGrid B)) ⟨s.toArray, y.toArray⟩ =
        .ok again ∧
      again.matrix (refresh.matrix (.ofGrid B)) = refresh.matrix (.ofGrid B) := by
  obtain ⟨refresh, hrefresh, hmatrix⟩ := exists_skipping_refresh rule tolerance B s y
  refine ⟨refresh, ?_⟩
  rcases hmatrix with hkept | ⟨B', hattempt, hupdated⟩
  · rw [hkept]
    exact ⟨refresh, hrefresh, hrefresh, hkept⟩
  · rw [hupdated]
    obtain ⟨hsymm, hsecant⟩ := attempt_on_secant htolerance hattempt
    obtain ⟨again, hagain, hmatrix⟩ := exists_skipping_refresh rule tolerance B' s y
    refine ⟨again, hrefresh, hagain, ?_⟩
    rcases hmatrix with hkept | ⟨B'', hattempt', hupdated'⟩
    · exact hkept
    · rw [hupdated', attempt_eq_self htolerance hsymm hsecant hattempt']

theorem identity_refresh_twice :
    (0 : ℝ) ≤ 2⁻¹ ∧ ∃ (B' : Grid ℝ 2 2) (again : Refresh ℝ),
      bfgs.refresh ⟨.skip, 2⁻¹⟩ (.ofGrid (Grid.identity 2)) ⟨#[1, 0], #[1, 1]⟩ =
        .ok (.updated (.ofGrid B')) ∧
      bfgs.refresh ⟨.skip, 2⁻¹⟩ (.ofGrid B') ⟨#[1, 0], #[1, 1]⟩ = .ok again ∧
      again.matrix (.ofGrid B') = .ofGrid B' := by
  have htolerance : (0 : ℝ) ≤ 2⁻¹ := by
    norm_num
  have hroot : √(2 : ℝ) < 2 := by
    rw [Real.sqrt_lt' two_pos]
    norm_num
  have hsize : (Grid.identity 2 : Grid ℝ 2 2).frobenius = √2 := by
    rw [Grid.frobenius_exact, Grid.toMatrix_identity]
    norm_num
  have haccepted : ∃ B' : Grid ℝ 2 2,
      bfgs.attempt 2⁻¹ (Grid.identity 2) #v[1, 0] #v[1, 1] = .ok B' := by
    refine exists_bfgsUpdate_iff.mpr ?_
    rw [hsize, norm_pair, norm_pair, Grid.toMatrix_identity, coords_pair, coords_pair]
    norm_num [dotProduct, Fin.sum_univ_two]
    linarith
  obtain ⟨B', hattempt⟩ := haccepted
  have hupdated : bfgs.refresh ⟨.skip, 2⁻¹⟩ (.ofGrid (Grid.identity 2 : Grid ℝ 2 2))
      ⟨#[1, 0], #[1, 1]⟩ = .ok (.updated (.ofGrid B')) := by
    have hsettled : bfgs.refresh ⟨.skip, 2⁻¹⟩ (.ofGrid (Grid.identity 2 : Grid ℝ 2 2))
        ⟨#[1, 0], #[1, 1]⟩ =
          bfgs.settle ⟨.skip, 2⁻¹⟩ (bfgs.attempt 2⁻¹ (Grid.identity 2) #v[1, 0] #v[1, 1]) :=
      refresh_ofGrid (Grid.identity 2) #v[1, 0] #v[1, 1]
    rw [hsettled, hattempt]
    rfl
  obtain ⟨refresh, again, hrefresh, hagain, hsame⟩ :=
    refresh_twice bfgs (Grid.identity 2) #v[1, 0] #v[1, 1] 2⁻¹ htolerance
  obtain rfl : Refresh.updated (.ofGrid B') = refresh :=
    Except.ok.inj (hupdated.symm.trans hrefresh)
  exact ⟨htolerance, B', again, hupdated, hagain, hsame⟩

end SecantRule

namespace Landscape

variable {L : Landscape n} {rule : SecantRule} {safeguard : Safeguard ℝ}

/-- A matrix on the secant equation is kept when degenerate updates are
skipped. -/
theorem refreshed_eq_self (hskip : safeguard.policy = .skip)
    (htolerance : 0 ≤ safeguard.tolerance) {B : Grid ℝ n n}
    (hB : rule = .bfgs → B.toMatrix.IsSymm) {x x' : Vector ℝ n}
    (hsecant : B.toMatrix *ᵥ coords (x' - x) = coords (L.gradient x' - L.gradient x)) :
    L.refreshed (some (rule, safeguard)) (.ofGrid B) x x' = .ok (.ofGrid B) := by
  cases hrefreshed : L.refreshed (some (rule, safeguard)) (.ofGrid B) x x' with
  | error failure =>
      have hpolicy := (refreshed_eq_error hrefreshed).1
      rw [hskip] at hpolicy
      cases hpolicy
  | ok A =>
      rcases refreshed_eq_ok hrefreshed with hkept | ⟨B', hA, hattempt⟩
      · rw [hkept]
      · rw [hA, SecantRule.attempt_eq_self htolerance hB hsecant hattempt]

end Landscape

end SecantDescent
