import SecantDescent.Proofs.Exact.Turn

/-!
# Scaled pairs

An update depends on the direction of a step and on what the gradient does along
it, and neither on the length and the sense of the step nor on the unit of the
objective.  The tests of an update have to respect that: each compares quantities
that change by the same factor, so that none of them passes or fails for the scale
of the data alone.
-/

namespace SecantDescent

open SecantDescent.Dense Matrix

variable {n : Nat} {c κ l : ℝ}

theorem Dense.coords_map_mul (xs : Vector ℝ n) (c : ℝ) :
    coords (xs.map (· * c)) = c • coords xs := by
  funext ⟨i, hi⟩
  simp [coords_mk, mul_comm]

theorem Dense.turned_scaled (xs : Vector ℝ n) (l : ℝ) : Turned 1 l xs (xs.map (· * l)) := by
  rw [Turned, coords_map_mul, one_mulVec]

theorem Grid.turned_one (κ : ℝ) :
    Turned (1 : Matrix (Fin n) (Fin n) ℝ) κ = fun A A' => A' = A.mapEntries (· * κ) := by
  funext A A'
  rw [Turned, transpose_one, one_mul, mul_one, ← toMatrix_mapEntries_mul,
    toMatrix_injective.eq_iff]

theorem Grid.mapEntries_mul_one (A : Grid ℝ n n) : A.mapEntries (· * 1) = A := by
  apply toMatrix_injective
  rw [toMatrix_mapEntries_mul, one_smul]

namespace SecantRule

theorem refresh_scaled (rule : SecantRule) (safeguard : Safeguard ℝ) (B : Grid ℝ n n)
    (s y : Vector ℝ n) (hκ : κ ≠ 0) (hl : l ≠ 0) :
    Alike Failure.SameCause
      (Refresh.Matches (fun A A' => A' = A.mapEntries (· * κ)) B (B.mapEntries (· * κ)))
      (rule.refresh safeguard (.ofGrid B) ⟨s.toArray, y.toArray⟩)
      (rule.refresh safeguard (.ofGrid (B.mapEntries (· * κ)))
        ⟨(s.map (· * l)).toArray, (y.map (· * (κ * l))).toArray⟩) := by
  have hone : (1 : Matrix (Fin n) (Fin n) ℝ)ᵀ * 1 = 1 := by
    rw [transpose_one, one_mul]
  have hheld : Grid.Turned 1 κ B (B.mapEntries (· * κ)) := by
    rw [Grid.turned_one]
  rw [← Grid.turned_one]
  exact refresh_turned rule safeguard hone hκ hl hheld (turned_scaled s l)
    (turned_scaled y (κ * l))

/-- A pair that is multiplied by a factor refreshes a matrix as the pair does. -/
theorem refresh_scaled_pair (rule : SecantRule) (safeguard : Safeguard ℝ) (B : Grid ℝ n n)
    (s y : Vector ℝ n) (hc : c ≠ 0) :
    Alike Failure.SameCause (Refresh.Matches (fun A A' => A' = A) B B)
      (rule.refresh safeguard (.ofGrid B) ⟨s.toArray, y.toArray⟩)
      (rule.refresh safeguard (.ofGrid B)
        ⟨(s.map (· * c)).toArray, (y.map (· * c)).toArray⟩) := by
  have hscaled := refresh_scaled rule safeguard B s y one_ne_zero hc
  simp only [Grid.mapEntries_mul_one, one_mul] at hscaled
  exact hscaled

/-- Neither rule, nor any of its tests, depends on the length or the sense of the step or
on the unit of the objective. -/
theorem refresh_scale_invariant (rule : SecantRule) (safeguard : Safeguard ℝ) (B : Grid ℝ n n)
    (s y : Vector ℝ n) (c : ℝ) (hc : c ≠ 0) :
    Alike Failure.SameCause (Refresh.Matches (fun A A' => A' = A) B B)
      (rule.refresh safeguard (.ofGrid B) ⟨s.toArray, y.toArray⟩)
      (rule.refresh safeguard (.ofGrid B)
        ⟨(s.map (· * c)).toArray, (y.map (· * c)).toArray⟩) ∧
    Alike Failure.SameCause
      (Refresh.Matches (fun A A' => A' = A.mapEntries (· * c)) B (B.mapEntries (· * c)))
      (rule.refresh safeguard (.ofGrid B) ⟨s.toArray, y.toArray⟩)
      (rule.refresh safeguard (.ofGrid (B.mapEntries (· * c)))
        ⟨s.toArray, (y.map (· * c)).toArray⟩) ∧
    Alike Failure.SameCause (Refresh.Matches (fun A A' => A' = A) B B)
      (rule.refresh safeguard (.ofGrid B) ⟨s.toArray, y.toArray⟩)
      (rule.refresh safeguard (.ofGrid B) ⟨(-s).toArray, (-y).toArray⟩) := by
  refine ⟨refresh_scaled_pair rule safeguard B s y hc, ?_, ?_⟩
  · have hscaled := refresh_scaled rule safeguard B s y hc one_ne_zero
    simp only [mul_one, Vector.map_id_fun'] at hscaled
    exact hscaled
  · have hreversed := refresh_scaled_pair rule safeguard B s y (neg_ne_zero.mpr one_ne_zero)
    have hneg (xs : Vector ℝ n) : xs.map (· * (-1)) = -xs := by
      apply coords_injective
      rw [coords_map_mul, coords_neg, neg_one_smul]
    rw [hneg, hneg] at hreversed
    exact hreversed

theorem identity_refresh_scale_invariant :
    (-2 : ℝ) ≠ 0 ∧ ∃ refresh other,
      bfgs.refresh ⟨.error, 0⟩ (.ofGrid (Grid.identity 2 : Grid ℝ 2 2)) ⟨#[3, 4], #[4, 3]⟩ =
        .ok refresh ∧
      bfgs.refresh ⟨.error, 0⟩ (.ofGrid ((Grid.identity 2 : Grid ℝ 2 2).mapEntries (· * (-2))))
        ⟨#[3, 4], #[-8, -6]⟩ = .ok other ∧
      Refresh.Matches (fun A A' => A' = A.mapEntries (· * (-2))) (Grid.identity 2)
        ((Grid.identity 2).mapEntries (· * (-2))) refresh other := by
  have hfactor : (-2 : ℝ) ≠ 0 := by
    norm_num
  have haccepted : ∃ B' : Grid ℝ 2 2,
      bfgs.attempt 0 (Grid.identity 2) #v[3, 4] #v[4, 3] = .ok B' := by
    refine exists_bfgsUpdate_iff.mpr ?_
    rw [Grid.toMatrix_identity, coords_pair, coords_pair]
    norm_num [dotProduct, Fin.sum_univ_two]
  obtain ⟨refresh, hrefresh⟩ := exists_strict_refresh_iff.mpr haccepted
  obtain ⟨-, hscaled, -⟩ := refresh_scale_invariant bfgs ⟨.error, 0⟩ (Grid.identity 2) #v[3, 4]
    #v[4, 3] (-2) hfactor
  obtain ⟨other, hother, hmatches⟩ := hscaled.exists_ok hrefresh
  have hchange : (#v[4, 3] : Vector ℝ 2).map (· * (-2)) = #v[-8, -6] := by
    apply coords_injective
    rw [coords_map_mul, coords_pair, coords_pair]
    norm_num
  rw [hchange] at hother
  exact ⟨hfactor, refresh, other, hrefresh, hother, hmatches⟩

end SecantRule

end SecantDescent
