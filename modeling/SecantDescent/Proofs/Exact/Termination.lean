import Mathlib.LinearAlgebra.FiniteDimensional.Lemmas
import SecantDescent.Proofs.Exact.Broyden
import SecantDescent.Proofs.Exact.Elimination
import SecantDescent.Proofs.Run.Policies

/-!
# Broyden's good rule on linear systems

The matrix that Broyden's good rule holds need not come close to the matrix `A`
of an affine gradient, and yet full steps with it reach the zero of the gradient
after at most two iterations for every unknown.  With `B` in the place of `A`, a
full step leaves `v - A d` of a vector `v = B d`.  There is always a subspace
that contains the gradient and all that is left of the vectors in it.  An update
gives a step whose image the next matrix has right, and of which nothing is left,
so that every second iteration goes on in a smaller subspace.
-/

namespace SecantDescent

open SecantDescent.Dense Eval Matrix Module

variable {n : Nat}

/-! ## Subspaces of remainders -/

section Subspaces

variable {V : Type} [AddCommGroup V] [Module ℝ V] [FiniteDimensional ℝ V]

theorem finrank_map_lt {P : Submodule ℝ V} {f : V →ₗ[ℝ] V} {d : V} (hd : d ∈ P) (hne : d ≠ 0)
    (hzero : f d = 0) : finrank ℝ (P.map f) < finrank ℝ P := by
  have hsum := (f.domRestrict P).finrank_range_add_finrank_ker
  have hker : 0 < finrank ℝ (LinearMap.ker (f.domRestrict P)) := by
    rw [finrank_pos_iff_exists_ne_zero]
    have hmem : (⟨d, hd⟩ : P) ∈ LinearMap.ker (f.domRestrict P) := hzero
    refine ⟨⟨⟨d, hd⟩, hmem⟩, ?_⟩
    simpa using hne
  rw [LinearMap.range_domRestrict] at hsum
  omega

theorem finrank_comap_le {f : V →ₗ[ℝ] V} (hf : Function.Injective f) (K : Submodule ℝ V) :
    finrank ℝ (K.comap f) ≤ finrank ℝ K := by
  have hinjective :
      Function.Injective (f.restrict (p := K.comap f) (q := K) fun _ h => h) := by
    intro v w h
    exact Subtype.ext (hf (congrArg Subtype.val h))
  exact LinearMap.finrank_le_finrank_of_injective hinjective

end Subspaces

/-- What full steps with the matrix `B` leave of the vectors in a subspace. -/
def remainders (A B : Matrix (Fin n) (Fin n) ℝ) (K : Submodule ℝ (Fin n → ℝ)) :
    Submodule ℝ (Fin n → ℝ) :=
  (K.comap B.mulVecLin).map (B - A).mulVecLin

/-- The gradient lies in the subspace, and full steps do not lead out of it. -/
structure Confines (A B : Matrix (Fin n) (Fin n) ℝ) (g : Fin n → ℝ)
    (K : Submodule ℝ (Fin n → ℝ)) : Prop where
  gradient : g ∈ K
  remainders : remainders A B K ≤ K

/-- How small a subspace confines a gradient after `k` iterations.  After every
other one there is a step `d` in reserve of which nothing will be left. -/
inductive ConfinedAfter (A B : Matrix (Fin n) (Fin n) ℝ) (g : Fin n → ℝ) (k : Nat) : Prop
  | settled {K} (confines : Confines A B g K) (small : 2 * finrank ℝ K + k ≤ 2 * n)
  | reserved {K d} (confines : Confines A B g K) (image : B *ᵥ d ∈ K) (nonzero : d ≠ 0)
      (agreed : A *ᵥ d = B *ᵥ d) (small : 2 * finrank ℝ K + k ≤ 2 * n + 1)

variable {A B : Matrix (Fin n) (Fin n) ℝ} {K K' : Submodule ℝ (Fin n → ℝ)}
variable {g s w : Fin n → ℝ} {k : Nat}

theorem mem_remainders_iff {v : Fin n → ℝ} :
    v ∈ remainders A B K ↔ ∃ d, B *ᵥ d ∈ K ∧ B *ᵥ d - A *ᵥ d = v := by
  rw [remainders, Submodule.mem_map]
  refine exists_congr fun d => and_congr Iff.rfl ?_
  rw [mulVecLin_apply, sub_mulVec]

theorem remainders_mono (h : K ≤ K') : remainders A B K ≤ remainders A B K' :=
  Submodule.map_mono (Submodule.comap_mono h)

theorem add_mem_remainders (hg : g ∈ K) (hstep : B *ᵥ s = -g) :
    g + A *ᵥ s ∈ remainders A B K := by
  refine mem_remainders_iff.mpr ⟨-s, ?_, ?_⟩
  · rwa [mulVec_neg, hstep, neg_neg]
  · rw [mulVec_neg, mulVec_neg, hstep, neg_neg, sub_neg_eq_add]

/-- A correction along a remainder in the subspace adds no other remainders. -/
theorem remainders_add_vecMulVec (hg : g ∈ K) (hleft : g ∈ remainders A B K) :
    remainders A (B + vecMulVec g w) K ≤ remainders A B K := by
  intro v hv
  obtain ⟨d, hd, rfl⟩ := mem_remainders_iff.mp hv
  have hcorrected : (B + vecMulVec g w) *ᵥ d = B *ᵥ d + (w ⬝ᵥ d) • g := by
    rw [add_mulVec, vecMulVec_mulVec, op_smul_eq_smul]
  have hold : B *ᵥ d ∈ K := by
    rw [hcorrected] at hd
    exact (Submodule.add_mem_iff_left K (K.smul_mem _ hg)).mp hd
  have hsplit : (B + vecMulVec g w) *ᵥ d - A *ᵥ d = (B *ᵥ d - A *ᵥ d) + (w ⬝ᵥ d) • g := by
    rw [hcorrected]
    abel
  rw [hsplit]
  exact add_mem (mem_remainders_iff.mpr ⟨d, hold, rfl⟩) (Submodule.smul_mem _ _ hleft)

theorem finrank_remainders_lt {d : Fin n → ℝ} (hB : B.det ≠ 0) (himage : B *ᵥ d ∈ K)
    (hd : d ≠ 0) (hagreed : A *ᵥ d = B *ᵥ d) : finrank ℝ (remainders A B K) < finrank ℝ K := by
  have hinjective : Function.Injective B.mulVecLin :=
    mulVec_injective_of_isUnit ((isUnit_iff_isUnit_det B).mpr hB.isUnit)
  have hkernel : (B - A).mulVecLin d = 0 := by
    rw [mulVecLin_apply, sub_mulVec, hagreed, sub_self]
  have hshrinks := finrank_map_lt (P := K.comap B.mulVecLin) himage hd hkernel
  exact hshrinks.trans_le (finrank_comap_le hinjective K)

/-! ## One iteration -/

theorem rankOne_of_step (hstep : B *ᵥ s = -g) :
    rankOne B s (A *ᵥ s) = B + vecMulVec (g + A *ᵥ s) ((s ⬝ᵥ s)⁻¹ • s) := by
  rw [rankOne, hstep, sub_neg_eq_add, add_comm (A *ᵥ s), vecMulVec_smul]

theorem Confines.rankOne (h : Confines A B g K) (hstep : B *ᵥ s = -g) :
    Confines A (rankOne B s (A *ᵥ s)) (g + A *ᵥ s) K := by
  have hleft := add_mem_remainders (A := A) h.gradient hstep
  refine ⟨h.remainders hleft, ?_⟩
  rw [rankOne_of_step hstep]
  exact (remainders_add_vecMulVec (h.remainders hleft) hleft).trans h.remainders

/-- The remainders of a subspace confine what its gradient becomes. -/
theorem Confines.rankOne_remainders (h : Confines A B g K) (hstep : B *ᵥ s = -g) :
    Confines A (SecantDescent.rankOne B s (A *ᵥ s)) (g + A *ᵥ s)
    (SecantDescent.remainders A B K) := by
  have hleft := add_mem_remainders (A := A) h.gradient hstep
  refine ⟨hleft, ?_⟩
  rw [rankOne_of_step hstep]
  exact (remainders_mono h.remainders).trans
    (remainders_add_vecMulVec (h.remainders hleft) hleft)

theorem confinedAfter_zero (A B : Matrix (Fin n) (Fin n) ℝ) (g : Fin n → ℝ) :
    ConfinedAfter A B g 0 := by
  have hwhole : finrank ℝ (⊤ : Submodule ℝ (Fin n → ℝ)) = n := by
    rw [finrank_top, finrank_fin_fun]
  exact .settled ⟨Submodule.mem_top, le_top⟩ (by omega)

theorem ConfinedAfter.next (h : ConfinedAfter A B g k) (hB : B.det ≠ 0) (hstep : B *ᵥ s = -g)
    (hs : s ≠ 0) : ConfinedAfter A (rankOne B s (A *ᵥ s)) (g + A *ᵥ s) (k + 1) := by
  cases h with
  | settled confines small =>
      have hnext := confines.rankOne (A := A) hstep
      have himage := rankOne_mulVec_step (B := B) (A *ᵥ s) hs
      refine .reserved hnext ?_ hs himage.symm (by omega)
      -- What the step changes is the difference of the two gradients.
      have hchange := sub_mem hnext.gradient confines.gradient
      rwa [add_sub_cancel_left, ← himage] at hchange
  | reserved confines image nonzero agreed small =>
      have hsmaller := finrank_remainders_lt hB image nonzero agreed
      exact .settled (confines.rankOne_remainders hstep) (by omega)

/-- A gradient other than zero leaves room for another iteration. -/
theorem ConfinedAfter.lt (h : ConfinedAfter A B g k) (hg : g ≠ 0) : k < 2 * n := by
  have hpositive {K : Submodule ℝ (Fin n → ℝ)} (hmem : g ∈ K) : 0 < finrank ℝ K :=
    finrank_pos_iff_exists_ne_zero.mpr
      ⟨⟨g, hmem⟩, fun hzero => hg (congrArg Subtype.val hzero)⟩
  cases h with
  | settled confines small =>
      have := hpositive confines.gradient
      omega
  | reserved confines image nonzero agreed small =>
      have := hpositive confines.gradient
      omega

/-! ## Whole runs -/

theorem Landscape.objective_neverDegenerate {σ : Type} (L : Landscape n) :
    (L.objective : Objective σ ℝ).NeverDegenerate := by
  constructor
  all_goals
    intro x state failure h
    simp only [objective, Objective.ofFunctions, outcome_ofExcept] at h
    split at h
    next => cases h
    next =>
      cases h
      rfl

namespace Solver

section Run

variable {σ : Type} {f : Objective σ ℝ} {safeguard : Safeguard ℝ} {point : Array ℝ}
variable {stopping : StoppingRule ℝ} {state : σ}

/-- An affine gradient is confined to a subspace that has become small enough. -/
structure Iterate.Confined {m : Nat} (iterate : Iterate ℝ m) (A : Grid ℝ m m)
    (b : Vector ℝ m) : Prop where
  gradient : iterate.gradient = A.mulVec iterate.point + b
  hessian : ∃ B : Grid ℝ m m, iterate.hessian = .ofGrid B ∧
    ConfinedAfter A.toMatrix B.toMatrix (coords iterate.gradient) iterate.count

theorem gradient_of_affine {m : Nat} {A : Grid ℝ m m} {b : Vector ℝ m}
    (hf : f.AffineGradient A b) {x g : Vector ℝ m} {k : Nat} {session after : Session σ ℝ}
    (h : (gradientAt f x k).outcome session = (.ok g, after)) : g = A.mulVec x + b := by
  obtain ⟨-, below, hanswer, -⟩ := gradientAt_eq_ok_iff.mp h
  have hsame := (hf x session.2.2).symm.trans (congrArg Prod.fst hanswer)
  exact (Vector.toArray_inj.mp (Except.ok.inj hsame)).symm

variable {A : Grid ℝ point.size point.size} {b : Vector ℝ point.size}

theorem confined_of_enter (hf : f.AffineGradient A b) {solver : Solver σ ℝ}
    {first : Iterate ℝ point.size} {session after : Session σ ℝ}
    (h : (solver.enter f point stopping).outcome session = (.ok first, after)) :
    Iterate.Confined first A b := by
  obtain ⟨-, hcount, hpoint, middle, hgradient, hhessian⟩ := enter_eq_ok_iff.mp h
  obtain ⟨hsquare, -⟩ := hessianAt_eq_ok_iff.mp hhessian
  obtain ⟨B, hB⟩ := DenseMatrix.exists_eq_ofGrid hsquare.rows hsquare.cols
  refine ⟨?_, B, hB, ?_⟩
  · rw [hpoint]
    exact gradient_of_affine hf hgradient
  · rw [hcount]
    exact confinedAfter_zero _ _ _

/-- An update that is not skipped is the one of rank one. -/
theorem rankOne_of_refresh {m : Nat} {B : Grid ℝ m m} {s y : Vector ℝ m} {refresh : Refresh ℝ}
    (h : SecantRule.goodBroyden.refresh safeguard (.ofGrid B) ⟨s.toArray, y.toArray⟩ =
      .ok refresh) :
    (∃ degeneracy, refresh = .skipped degeneracy) ∨ ∃ B' : Grid ℝ m m,
      refresh = .updated (.ofGrid B') ∧
      B'.toMatrix = rankOne B.toMatrix (coords s) (coords y) := by
  rw [SecantRule.refresh_ofGrid] at h
  rcases SecantRule.settle_eq_ok h with ⟨B', hattempt, rfl⟩ | ⟨degeneracy, -, -, rfl⟩
  · right
    refine ⟨B', rfl, ?_⟩
    exact (SecantRule.goodBroyden_attempt_exact hattempt).2
  · exact .inl ⟨degeneracy, rfl⟩

/-- An iteration whose entries in the log are no skipped updates. -/
theorem kept_of_refreshmentLog {method : String} {log : Log ℝ} {refresh : Refresh ℝ}
    {last : Event ℝ}
    (h : ∀ event ∈ ((refreshmentLog method log refresh).push last).toList, event.isSkip =
      false) :
    (∀ event ∈ log.toList, event.isSkip = false) ∧
      ∀ degeneracy, refresh ≠ .skipped degeneracy := by
  cases refresh with
  | updated matrix =>
      refine ⟨fun event hevent => h event ?_, nofun⟩
      rw [Array.toList_push]
      exact List.mem_append_left _ hevent
  | skipped degeneracy =>
      have hskip := h (.skippedUpdate method degeneracy.quantity degeneracy.value) (by
        simp [refreshmentLog])
      cases hskip

theorem kept_before_iteration {iterate next : Iterate ℝ point.size}
    {session after : Session σ ℝ}
    (h : ((ofSecant 1 (some (.goodBroyden, safeguard))).iteration f iterate).outcome session =
      (.ok next, after))
    (hkept : ∀ event ∈ after.1.toList, event.isSkip = false) :
    ∀ event ∈ session.1.toList, event.isSkip = false := by
  obtain ⟨middle, hadvance, rfl⟩ := iteration_eq_ok_iff.mp h
  obtain ⟨held, first, _, second, hmatrix, -, -, -, -, hafter, hnext⟩ :=
    advance_eq_ok_iff.mp hadvance
  obtain ⟨_, _, refresh, _, -, -, -, -, rfl⟩ := (matrixAfter_eq_ok_iff rfl).mp hafter
  obtain ⟨-, _, -, rfl⟩ := gradientAt_eq_ok_iff.mp hnext
  obtain rfl : first = session := by
    rw [matrixFor_eq_ok_iff] at hmatrix
    exact hmatrix.2
  exact (kept_of_refreshmentLog hkept).1

/-- A full step whose update is not skipped. -/
theorem Iterate.Confined.iteration (hf : f.AffineGradient A b)
    {iterate next : Iterate ℝ point.size} {session after : Session σ ℝ}
    (hconfined : Iterate.Confined iterate A b) (hgradient : coords iterate.gradient ≠ 0)
    (h : ((ofSecant 1 (some (.goodBroyden, safeguard))).iteration f iterate).outcome session =
      (.ok next, after))
    (hkept : ∀ event ∈ after.1.toList, event.isSkip = false) : Iterate.Confined next A b := by
  obtain ⟨middle, hadvance, rfl⟩ := iteration_eq_ok_iff.mp h
  obtain ⟨held, first, direction, second, hmatrix, hdirection, hcount, hpoint, -, hafter,
    hnext⟩ := advance_eq_ok_iff.mp hadvance
  obtain ⟨pair, paired, refresh, below, hpair, hrefresh, hhessian, -, rfl⟩ :=
    (matrixAfter_eq_ok_iff rfl).mp hafter
  obtain ⟨-, _, -, rfl⟩ := gradientAt_eq_ok_iff.mp hnext
  obtain ⟨rfl, rfl⟩ : held = iterate.hessian ∧ first = session := by
    rw [matrixFor_eq_ok_iff] at hmatrix
    exact hmatrix
  have hupdated := (kept_of_refreshmentLog hkept).2
  obtain ⟨hiterate, B, hB, hsmall⟩ := hconfined
  rw [hB] at hdirection hrefresh
  obtain ⟨y, rfl, hsecant⟩ := SecantPair.eq_of_between hf hpair
  obtain ⟨hdet, hsolves⟩ := descentDirection_eq_ok_iff.mp hdirection
  have hstep : coords (next.point - iterate.point) = coords direction := by
    have hlength : (ofSecant 1 (some (.goodBroyden, safeguard)) : Solver σ ℝ).step.stepLength =
      1 := rfl
    rw [hpoint, hlength, coords_sub, coords_moved, one_smul, add_sub_cancel_left]
  have hnonzero : coords direction ≠ 0 := by
    intro hzero
    rw [hzero, mulVec_zero] at hsolves
    exact hgradient (neg_eq_zero.mp hsolves.symm)
  have hmoved := gradient_of_affine hf hnext
  have hchange : coords next.gradient =
      coords iterate.gradient + A.toMatrix *ᵥ coords direction := by
    rw [hmoved, hiterate, ← hstep, coords_add, coords_add, coords_sub,
      Grid.coords_mulVec, Grid.coords_mulVec, mulVec_sub]
    abel
  rcases rankOne_of_refresh (congrArg Prod.fst hrefresh) with
    ⟨degeneracy, hskipped⟩ | ⟨B', rfl, hB'⟩
  · exact absurd hskipped (hupdated degeneracy)
  · rw [hstep] at hsecant
    rw [hstep, ← hsecant] at hB'
    refine ⟨hmoved, B', hhessian, ?_⟩
    rw [hB', hchange, hcount]
    exact hsmall.next hdet hsolves hnonzero

theorem AtHead.confined (hf : f.AffineGradient A b) {iterate : Iterate ℝ point.size}
    {session : Session σ ℝ}
    (head : AtHead (ofSecant 1 (some (.goodBroyden, safeguard))) f point stopping state iterate
      session) (hkept : ∀ event ∈ session.1.toList, event.isSkip = false) :
    Iterate.Confined iterate A b := by
  induction head with
  | first entered unmet => exact confined_of_enter hf entered
  | next head room iterated unmet ih =>
      have hconfined := ih (kept_before_iteration iterated hkept)
      exact hconfined.iteration hf (head.gradient_ne_zero head.validated.1) iterated hkept

/-- Without a skipped update there are fewer heads than twice the number of
unknowns. -/
theorem AtHead.count_lt (hf : f.AffineGradient A b) {iterate : Iterate ℝ point.size}
    {session : Session σ ℝ}
    (head : AtHead (ofSecant 1 (some (.goodBroyden, safeguard))) f point stopping state iterate
      session) (hkept : ∀ event ∈ session.1.toList, event.isSkip = false) :
    iterate.count < 2 * point.size := by
  obtain ⟨-, B, -, hsmall⟩ := head.confined hf hkept
  exact hsmall.lt (head.gradient_ne_zero head.validated.1)

end Run

/-! ## Runs that skip nothing -/

/-- At zero tolerance no update of a matrix other than zero is degenerate. -/
theorem exists_next_at_zero_tolerance {L : Landscape n} {policy : DegeneratePolicy}
    {iterate : Iterate ℝ n} {B : Grid ℝ n n} (hB : iterate.hessian = .ofGrid B)
    (hdet : B.toMatrix.det ≠ 0) (hgradient : coords iterate.gradient ≠ 0) :
    ∃ next, L.next 1 (some (.goodBroyden, ⟨policy, 0⟩)) iterate = .ok next := by
  obtain ⟨direction, hdirection⟩ :=
    exists_descentDirection hdet iterate.gradient (iterate.count + 1)
  have hsolves := (descentDirection_eq_ok_iff.mp hdirection).2
  rw [← hB] at hdirection
  set s := moved iterate.point direction 1 - iterate.point with hs
  have hnonzero : coords s ≠ 0 := by
    intro hzero
    rw [hs, coords_sub, coords_moved, one_smul, add_sub_cancel_left] at hzero
    rw [hzero, mulVec_zero] at hsolves
    exact hgradient (neg_eq_zero.mp hsolves.symm)
  have hpositive : 0 < coords s ⬝ᵥ coords s := dotProduct_self_star_pos_iff.mpr hnonzero
  have hfrobenius : 0 < B.frobenius := by
    have hnonneg : 0 ≤ trace (B.toMatrixᵀ * B.toMatrix) :=
      (posSemidef_conjTranspose_mul_self B.toMatrix).trace_nonneg
    rw [Grid.frobenius_exact, Real.sqrt_pos]
    refine lt_of_le_of_ne hnonneg (Ne.symm fun hzero => hgradient ?_)
    have hempty : B.toMatrix = 0 := trace_conjTranspose_mul_self_eq_zero_iff.mp hzero
    rw [hempty, zero_mulVec] at hsolves
    exact neg_eq_zero.mp hsolves.symm
  have hattempt : ∃ B', SecantRule.goodBroyden.attempt 0 B s
      (L.gradient (moved iterate.point direction 1) - L.gradient iterate.point) = .ok B' := by
    rw [SecantRule.exists_goodBroyden_attempt_iff, zero_mul, norm_exact]
    exact ⟨hnonzero, mul_pos hfrobenius (Real.sqrt_pos.mpr hpositive)⟩
  obtain ⟨B', hB'⟩ := hattempt
  have hheld : descentDirection (L.held (some (.goodBroyden, ⟨policy, 0⟩)) iterate)
      iterate.gradient (iterate.count + 1) = .ok direction := hdirection
  rw [Landscape.next_of_direction hheld, Landscape.held_some, hB,
    Landscape.refreshed_ofGrid, hB']
  exact ⟨_, rfl⟩

/-- With an affine gradient and full steps, a run with Broyden's good rule that skips
no update converges after at most two iterations for every unknown. -/
theorem goodBroyden_run_terminates {σ : Type} (f : Objective σ ℝ) (point : Array ℝ)
    (A : Grid ℝ point.size point.size) (b : Vector ℝ point.size) (safeguard : Safeguard ℝ)
    (stopping : StoppingRule ℝ) (state : σ) (hf : f.AffineGradient A b)
    (hbudget : 2 * point.size ≤ stopping.maxIterations.toNat) :
    let run := (ofSecant 1 (some (.goodBroyden, safeguard))).minimize f point stopping state
    ∀ report, run.result = .ok report → (∀ event ∈ run.log.toList, event.isSkip = false) →
      report.ending = .converged ∧ report.iterations ≤ 2 * point.size := by
  intro run report hresult hkept
  obtain ⟨iterate, session, ending, value, after, hfinish, hcost, rfl⟩ :=
    minimize_eq_ok_iff.mp hresult
  have hlog : run.log = session.1.push (lastEvent stopping iterate value ending) :=
    hfinish.minimize_log hcost
  rw [hlog, Array.toList_push] at hkept
  have hsession : ∀ event ∈ session.1.toList, event.isSkip = false :=
    fun event hevent => hkept event (List.mem_append_left _ hevent)
  change ending = .converged ∧ iterate.count ≤ 2 * point.size
  cases hfinish with
  | atOnce entered met =>
      have hcount : iterate.count = 0 := (enter_eq_ok_iff.mp entered).2.1
      exact ⟨rfl, by omega⟩
  | converged head room iterated met =>
      have hlast := head.count_lt hf (kept_before_iteration iterated hsession)
      have hcount := iteration_count iterated
      exact ⟨rfl, by omega⟩
  | exhausted head spent =>
      have := head.count_lt hf hsession
      omega

/-- A product with a matrix is no longer than the norm of the matrix allows. -/
theorem mulVec_dotProduct_self_le (E : Matrix (Fin n) (Fin n) ℝ) (v : Fin n → ℝ) :
    E *ᵥ v ⬝ᵥ E *ᵥ v ≤ trace (Eᵀ * E) * (v ⬝ᵥ v) := by
  have hrow (i : Fin n) : (E *ᵥ v) i * (E *ᵥ v) i ≤ (∑ j, E i j ^ 2) * ∑ j, v j ^ 2 := by
    rw [← sq]
    exact Finset.sum_mul_sq_le_sq_mul_sq Finset.univ (E i) v
  have htrace : trace (Eᵀ * E) = ∑ i, ∑ j, E i j ^ 2 := by
    rw [Finset.sum_comm]
    simp [trace, mul_apply, sq]
  calc E *ᵥ v ⬝ᵥ E *ᵥ v
      ≤ ∑ i, (∑ j, E i j ^ 2) * ∑ j, v j ^ 2 := Finset.sum_le_sum fun i _ => hrow i
    _ = trace (Eᵀ * E) * (v ⬝ᵥ v) := by
        rw [← Finset.sum_mul, htrace]
        simp [dotProduct, sq]

/-- A matrix that is closer to the identity than one is nonsingular. -/
theorem det_ne_zero_of_close {B : Grid ℝ n n} (h : (B - Grid.identity n).frobenius < 1) :
    B.toMatrix.det ≠ 0 := by
  intro hdet
  obtain ⟨v, hv, hkernel⟩ := exists_mulVec_eq_zero_iff.mpr hdet
  rw [Grid.frobenius_exact, Grid.toMatrix_sub, Grid.toMatrix_identity, Real.sqrt_lt' one_pos,
    one_pow] at h
  have hpositive : 0 < v ⬝ᵥ v := dotProduct_self_star_pos_iff.mpr hv
  have hbound := mulVec_dotProduct_self_le (B.toMatrix - 1) v
  rw [sub_mulVec, hkernel, one_mulVec, zero_sub, neg_dotProduct_neg] at hbound
  nlinarith

/-- Half the square of the distance from a point in the plane, with half more than the
curvature along the first coordinate in its Hessian. -/
noncomputable def misjudged : Landscape 2 where
  value x := dot x x * Scalar.half
  gradient x := (Grid.identity 2).mulVec x + #v[-1, 1]
  hessian _ := Grid.ofFn fun i j =>
    if i.val = j.val then if i.val = 0 then 1 + Scalar.half else 1 else 0

theorem misjudged_close : (misjudged.hessian #v[2, 1] - Grid.identity 2).frobenius < 1 := by
  rw [Grid.frobenius_exact, Grid.toMatrix_sub, Grid.toMatrix_identity, Real.sqrt_lt' one_pos]
  have hhalf : (Scalar.half * Scalar.half : ℝ) < 1 := by
    rw [Scalar.half_exact]
    norm_num
  simpa [misjudged, trace_fin_two, mul_apply] using hhalf

/-- The Hessian is close to the matrix of the gradient, and stays so. -/
theorem misjudged_run_terminates :
    ∃ report,
      ((ofSecant 1 (some (.goodBroyden, ⟨.error, 0⟩))).minimize misjudged.objective #[2, 1]
        ⟨0, 4⟩ ()).result = .ok report ∧
      report.ending = .converged ∧ report.iterations ≤ 4 := by
  have hanswers : Objective.Answers (misjudged.objective : Objective Unit ℝ) misjudged :=
    misjudged.objective_answers
  have haffine : Objective.AffineGradient (misjudged.objective : Objective Unit ℝ)
      (Grid.identity 2) #v[-1, 1] := hanswers.gradient
  have hstopping : (⟨0, 4⟩ : StoppingRule ℝ).validate = .ok () :=
    StoppingRule.validate_exact.mpr ⟨le_rfl, by decide⟩
  have hfine := misjudged.objective_neverDegenerate (σ := Unit)
  obtain ⟨report, hreport⟩ : ∃ report,
      ((ofSecant 1 (some (.goodBroyden, ⟨.error, 0⟩))).minimize misjudged.objective #[2, 1]
        ⟨0, 4⟩ ()).result = .ok report := by
    refine exists_report hanswers (by simp) one_pos hstopping fun iterate session head => ?_
    obtain ⟨B, hB, hdistance⟩ := within_of_head haffine (hanswers.hessian #v[2, 1]) head
    have hdet : B.toMatrix.det ≠ 0 := det_ne_zero_of_close (hdistance.trans_lt misjudged_close)
    exact exists_next_at_zero_tolerance hB hdet (head.gradient_ne_zero hstopping)
  refine ⟨report, hreport, ?_⟩
  exact goodBroyden_run_terminates misjudged.objective #[2, 1] (Grid.identity 2) #v[-1, 1]
    ⟨.error, 0⟩ ⟨0, 4⟩ () haffine (by decide) report hreport
    (isSkip_of_refusing hfine .goodBroyden 1 0 #[2, 1] ⟨0, 4⟩ ())

end Solver

end SecantDescent
