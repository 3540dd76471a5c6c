import SecantDescent.Proofs.Secant.Refresh

/-!
# Outcomes of a refreshment

Products and quotients of a pair can overflow, and every quantity of an update
can fail to be a number.  A rule therefore looks over the matrix it has made
before it hands it out, and a pair that leads to anything else than finite
entries is degenerate.  So a refreshment has three outcomes besides the refusal
of a matrix of the wrong shape: a finite matrix, the matrix held, or the failure
that a strict safeguard makes of a degenerate update.
-/

namespace SecantDescent

variable {α : Type}

theorem SecantPair.ofSteps_eq_ok_iff {s y : Array α} {pair : SecantPair α} :
    ofSteps s y = .ok pair ↔ s.size = y.size ∧ pair = ⟨s, y⟩ := by
  unfold ofSteps
  split
  next hsize => simp [hsize, eq_comm]
  next hsize => simp [hsize]

variable [Scalar α]

theorem Grid.allFinite_iff {rows cols : Nat} {A : Grid α rows cols} :
    A.allFinite = true ↔ ∀ i j, Scalar.isFinite (A.entry i j) = true := by
  simp only [allFinite, Scalar.allFinite, entry, Vector.all_toList, Vector.all_eq_true]
  constructor
  · intro h i j
    exact h i i.isLt j j.isLt
  · intro h i hi j hj
    exact h ⟨i, hi⟩ ⟨j, hj⟩

/-- No entry is infinite or not a number. -/
def DenseMatrix.EntriesFinite (A : DenseMatrix α) : Prop :=
  ∀ i j, Scalar.isFinite (A.grid.entry i j) = true

namespace SecantRule

variable {rule : SecantRule} {safeguard : Safeguard α} {tolerance : α} {n : Nat}

theorem entriesFinite_of_attempt {B B' : Grid α n n} {s y : Vector α n}
    (h : rule.attempt tolerance B s y = .ok B') : (DenseMatrix.ofGrid B').EntriesFinite := by
  apply Grid.allFinite_iff.mp
  cases rule with
  | bfgs =>
      have hupdate : bfgsUpdate tolerance B s y = .ok B' := h
      exact (bfgsUpdate_eq_ok_iff.mp hupdate).2.2.1
  | goodBroyden =>
      exact (goodBroydenUpdate_eq_ok_iff.mp (goodBroyden_attempt_eq_ok_iff.mp h).2).2.1

/-- A refreshment that succeeds makes a finite matrix, or passes over the pair. -/
theorem refresh_eq_ok {held : DenseMatrix α} {pair : SecantPair α} {refresh : Refresh α}
    (hpair : pair.y.size = pair.s.size) (h : rule.refresh safeguard held pair = .ok refresh) :
    (∃ B : Grid α pair.length pair.length,
      refresh = .updated (.ofGrid B) ∧ (DenseMatrix.ofGrid B).EntriesFinite) ∨
    (safeguard.policy = .skip ∧ ∃ degeneracy, refresh = .skipped degeneracy) := by
  obtain ⟨s, y⟩ := pair
  by_cases hshape : held.rows = s.size ∧ held.cols = s.size
  · obtain ⟨B, rfl⟩ := DenseMatrix.exists_eq_ofGrid hshape.1 hshape.2
    have hsettled : rule.refresh safeguard (.ofGrid B) ⟨s, y⟩ =
        rule.settle safeguard (rule.attempt safeguard.tolerance B s.toVector ⟨y, hpair⟩) :=
      refresh_ofGrid B s.toVector ⟨y, hpair⟩
    rw [hsettled] at h
    rcases settle_eq_ok h with ⟨B', hattempt, hupdated⟩ | ⟨degeneracy, -, hpolicy, hskipped⟩
    · exact .inl ⟨B', hupdated, entriesFinite_of_attempt hattempt⟩
    · exact .inr ⟨hpolicy, degeneracy, hskipped⟩
  · rw [refresh_of_misfit hshape] at h
    cases h

/-- Whatever the numbers are, a refreshment refuses exactly the matrices that are
not square of the size of the pair, and otherwise makes a finite matrix or meets a
degenerate update, which is passed over or refused as the safeguard says. -/
theorem refresh_outcomes (rule : SecantRule) (safeguard : Safeguard α) (held : DenseMatrix α)
    (s y : Array α) (pair : SecantPair α) (hpair : SecantPair.ofSteps s y = .ok pair) :
    rule.refresh safeguard held pair ≠ .error .shapeClash ∧
    (∀ argument expected actual,
      rule.refresh safeguard held pair =
          .error (.dimensionMismatch argument expected actual) ↔
        ¬ (held.rows = pair.length ∧ held.cols = pair.length) ∧ argument = "hessian" ∧
          expected = .shape pair.length pair.length ∧ actual = .shape held.rows held.cols) ∧
    (held.rows = pair.length ∧ held.cols = pair.length → safeguard.policy = .error →
      (∃ B : Grid α pair.length pair.length, (DenseMatrix.ofGrid B).EntriesFinite ∧
        rule.refresh safeguard held pair = .ok (.updated (.ofGrid B))) ∨
      ∃ quantity value, rule.refresh safeguard held pair =
        .error (.degenerateUpdate rule.name quantity value)) ∧
    (held.rows = pair.length ∧ held.cols = pair.length → safeguard.policy = .skip →
      ∃ refresh, rule.refresh safeguard held pair = .ok refresh ∧
        ((refresh.matrix held).EntriesFinite ∨ refresh.matrix held = held)) ∧
    (held.EntriesFinite → ∀ refresh, rule.refresh safeguard held pair = .ok refresh →
      (refresh.matrix held).EntriesFinite) ∧
    (safeguard.policy = .skip → ∀ method quantity value,
      rule.refresh safeguard held pair ≠
        .error (.degenerateUpdate method quantity value)) := by
  obtain ⟨hsize, rfl⟩ := SecantPair.ofSteps_eq_ok_iff.mp hpair
  have hlength : y.size = s.size := hsize.symm
  refine ⟨?_, ?_, ?_, ?_, ?_, ?_⟩
  · intro hclash
    rcases refresh_eq_error hlength hclash with hmisfit | ⟨quantity, value, -, hdegenerate⟩
    · cases hmisfit
    · cases hdegenerate
  · intro argument expected actual
    constructor
    · intro hmismatch
      by_cases hshape : held.rows = s.size ∧ held.cols = s.size
      · obtain ⟨quantity, value, -, hdegenerate⟩ :=
          degenerate_of_refresh_eq_error hshape.1 hshape.2 rfl hlength hmismatch
        cases hdegenerate
      · have hmisfit : rule.refresh safeguard held ⟨s, y⟩ =
            .error (.notSquare "hessian" s.size held.rows held.cols) :=
          refresh_of_misfit hshape
        rw [hmisfit] at hmismatch
        cases hmismatch
        exact ⟨hshape, rfl, rfl, rfl⟩
    · rintro ⟨hshape, rfl, rfl, rfl⟩
      exact refresh_of_misfit hshape
  · intro hshape hpolicy
    cases hrefresh : rule.refresh safeguard held ⟨s, y⟩ with
    | ok refresh =>
        rcases refresh_eq_ok hlength hrefresh with ⟨B, rfl, hfinite⟩ | ⟨hskip, -⟩
        · exact .inl ⟨B, hfinite, rfl⟩
        · rw [hskip] at hpolicy
          cases hpolicy
    | error failure =>
        obtain ⟨quantity, value, -, rfl⟩ :=
          degenerate_of_refresh_eq_error hshape.1 hshape.2 rfl hlength hrefresh
        exact .inr ⟨quantity, value, rfl⟩
  · intro hshape hpolicy
    cases hrefresh : rule.refresh safeguard held ⟨s, y⟩ with
    | ok refresh =>
        rcases refresh_eq_ok hlength hrefresh with ⟨B, rfl, hfinite⟩ | ⟨-, degeneracy, rfl⟩
        · exact ⟨_, rfl, .inl hfinite⟩
        · exact ⟨_, rfl, .inr rfl⟩
    | error failure =>
        obtain ⟨quantity, value, hstrict, -⟩ :=
          degenerate_of_refresh_eq_error hshape.1 hshape.2 rfl hlength hrefresh
        rw [hstrict] at hpolicy
        cases hpolicy
  · intro hheld refresh hrefresh
    rcases refresh_eq_ok hlength hrefresh with ⟨B, rfl, hfinite⟩ | ⟨-, degeneracy, rfl⟩
    · exact hfinite
    · exact hheld
  · intro hpolicy method quantity value hdegenerate
    rcases refresh_eq_error hlength hdegenerate with hmisfit | ⟨quantity, value, hstrict, -⟩
    · cases hmisfit
    · rw [hstrict] at hpolicy
      cases hpolicy

/-- The product of the step with itself overflows and its change is not a number;
the rule of rank two keeps the matrix it holds. -/
theorem overflowing_refresh_outcomes :
    ∃ refresh, bfgs.refresh ⟨.skip, (0.0 : Float)⟩ (.ofGrid (Grid.identity 2))
        ⟨#[1e200, 1.0], #[0.0 / 0.0, 1e300]⟩ = .ok refresh ∧
      (refresh.matrix (.ofGrid (Grid.identity 2))).EntriesFinite := by
  obtain ⟨-, -, -, hskip, hfinite, -⟩ :=
    refresh_outcomes bfgs ⟨.skip, 0.0⟩
      (.ofGrid (Grid.identity 2)) #[1e200, 1.0] #[0.0 / 0.0, 1e300]
      ⟨#[1e200, 1.0], #[0.0 / 0.0, 1e300]⟩ rfl
  obtain ⟨refresh, hrefresh, -⟩ := hskip ⟨rfl, rfl⟩ rfl
  have hheld : (DenseMatrix.ofGrid (Grid.identity 2) : DenseMatrix Float).EntriesFinite := by
    unfold DenseMatrix.EntriesFinite
    decide +kernel
  exact ⟨refresh, hrefresh, hfinite hheld refresh hrefresh⟩

end SecantRule

end SecantDescent
