import Mathlib.LinearAlgebra.Matrix.Permutation
import SecantDescent.Proofs.Exact.Bfgs
import SecantDescent.Proofs.Exact.Elimination
import SecantDescent.Proofs.Exact.Turn

/-!
# Runs in another frame

A run does not depend on the unit of the objective, on the unit and the order
of the unknowns, on their signs, or on the origin.
-/

namespace SecantDescent

open SecantDescent.Dense Matrix

variable {n : Nat}

/-! ## Frames -/

/-- A change of the frame of a minimisation: the objective is multiplied by a
factor, and a point is multiplied by another one, its components are put into
another order with signs, and the origin is moved. -/
structure Reframing (n : Nat) where
  objectiveFactor : ℝ
  variableFactor : ℝ
  order : Equiv.Perm (Fin n)
  sign : Fin n → ℤˣ
  origin : Vector ℝ n
  objectiveFactor_pos : 0 < objectiveFactor
  variableFactor_ne_zero : variableFactor ≠ 0

namespace Reframing

variable (T : Reframing n)

/-- The signed permutation matrix of the frame. -/
def turn : Matrix (Fin n) (Fin n) ℝ :=
  diagonal (fun i => ((T.sign i : ℤ) : ℝ)) * T.order.permMatrix ℝ

noncomputable def gradientFactor : ℝ :=
  T.objectiveFactor / T.variableFactor

noncomputable def hessianFactor : ℝ :=
  T.objectiveFactor / T.variableFactor ^ 2

noncomputable def point (x : Vector ℝ n) : Vector ℝ n :=
  Vector.ofFn (T.variableFactor • T.turn *ᵥ coords x + coords T.origin)

noncomputable def gradient (g : Vector ℝ n) : Vector ℝ n :=
  Vector.ofFn (T.gradientFactor • T.turn *ᵥ coords g)

noncomputable def hessian (H : Grid ℝ n n) : Grid ℝ n n :=
  Grid.ofFn (T.hessianFactor • (T.turn * H.toMatrix * T.turnᵀ))

noncomputable def stopping (stopping : StoppingRule ℝ) : StoppingRule ℝ where
  tolerance := T.objectiveFactor / |T.variableFactor| * stopping.tolerance
  maxIterations := stopping.maxIterations

/-- The answers of the second landscape are those of the first one in the new
frame. -/
structure Carries (L L' : Landscape n) : Prop where
  value : ∀ x, L'.value (T.point x) = T.objectiveFactor * L.value x
  gradient : ∀ x, L'.gradient (T.point x) = T.gradient (L.gradient x)
  hessian : ∀ x, L'.hessian (T.point x) = T.hessian (L.hessian x)

structure CarriesIterate (iterate other : Iterate ℝ n) : Prop where
  count : other.count = iterate.count
  point : other.point = T.point iterate.point
  gradient : other.gradient = T.gradient iterate.gradient
  hessian : ∃ H, iterate.hessian = .ofGrid H ∧ other.hessian = .ofGrid (T.hessian H)

structure CarriesReport (report other : Report ℝ) : Prop where
  iterations : other.iterations = report.iterations
  ending : other.ending = report.ending
  value : other.value = T.objectiveFactor * report.value
  point : ∃ x, report.point = Vector.toArray x ∧ other.point = (T.point x).toArray
  gradient : ∃ g, report.gradient = Vector.toArray g ∧ other.gradient = (T.gradient g).toArray
  hessian : ∃ H, report.hessian = .ofGrid H ∧ other.hessian = .ofGrid (T.hessian H)

variable {T}

theorem turn_mulVec (T : Reframing n) (v : Fin n → ℝ) :
    T.turn *ᵥ v = fun i => ((T.sign i : ℤ) : ℝ) * v (T.order i) := by
  funext i
  rw [turn, ← mulVec_mulVec, mulVec_diagonal, Matrix.permMatrix_mulVec]
  rfl

theorem turn_orthogonal (T : Reframing n) : T.turnᵀ * T.turn = 1 := by
  have hsigns : diagonal (fun i => ((T.sign i : ℤ) : ℝ)) *
      diagonal (fun i => ((T.sign i : ℤ) : ℝ)) = 1 := by
    rw [diagonal_mul_diagonal, ← diagonal_one]
    congr 1
    funext i
    rw [← Int.cast_mul, Int.units_coe_mul_self, Int.cast_one]
  have horder : (T.order.permMatrix ℝ)ᵀ * T.order.permMatrix ℝ = 1 := by
    rw [transpose_permMatrix, ← permMatrix_mul, mul_inv_cancel, permMatrix_one]
  calc T.turnᵀ * T.turn
      = (T.order.permMatrix ℝ)ᵀ * (diagonal (fun i => ((T.sign i : ℤ) : ℝ)) *
          diagonal (fun i => ((T.sign i : ℤ) : ℝ))) * T.order.permMatrix ℝ := by
        rw [turn, transpose_mul, diagonal_transpose]
        simp only [mul_assoc]
    _ = 1 := by
        rw [hsigns, mul_one, horder]

theorem gradientFactor_eq (T : Reframing n) :
    T.gradientFactor = T.hessianFactor * T.variableFactor := by
  have hl := T.variableFactor_ne_zero
  rw [gradientFactor, hessianFactor]
  field_simp

theorem hessianFactor_pos (T : Reframing n) : 0 < T.hessianFactor := by
  have hc := T.objectiveFactor_pos
  have hl := T.variableFactor_ne_zero
  rw [hessianFactor]
  positivity

theorem coords_point (T : Reframing n) (x : Vector ℝ n) :
    coords (T.point x) = T.variableFactor • T.turn *ᵥ coords x + coords T.origin :=
  coords_ofFn _

theorem gradient_turned (T : Reframing n) (g : Vector ℝ n) :
    Turned T.turn T.gradientFactor g (T.gradient g) :=
  coords_ofFn _

theorem hessian_turned (T : Reframing n) (H : Grid ℝ n n) :
    Grid.Turned T.turn T.hessianFactor H (T.hessian H) :=
  Grid.toMatrix_ofFn _

theorem eq_hessian_of_turned {H H' : Grid ℝ n n}
    (h : Grid.Turned T.turn T.hessianFactor H H') :
    H' = T.hessian H := by
  apply Grid.toMatrix_injective
  rw [h, T.hessian_turned H]

theorem step_turned (T : Reframing n) (x x' : Vector ℝ n) :
    Turned T.turn T.variableFactor (x' - x) (T.point x' - T.point x) := by
  rw [Turned, coords_sub, coords_sub, coords_point, coords_point, add_sub_add_right_eq_sub,
    mulVec_sub, smul_sub]

theorem change_turned (T : Reframing n) (g g' : Vector ℝ n) :
    Turned T.turn (T.hessianFactor * T.variableFactor) (g' - g)
    (T.gradient g' - T.gradient g) := by
  rw [← gradientFactor_eq]
  exact (T.gradient_turned g').sub (T.gradient_turned g)

noncomputable def source (T : Reframing n) (z : Vector ℝ n) : Vector ℝ n :=
  Vector.ofFn (T.variableFactor⁻¹ • T.turnᵀ *ᵥ (coords z - coords T.origin))

theorem source_point (T : Reframing n) (x : Vector ℝ n) : T.source (T.point x) = x := by
  apply coords_injective
  rw [source, coords_ofFn, coords_point, add_sub_cancel_right, mulVec_smul, mulVec_mulVec,
    turn_orthogonal, one_mulVec, inv_smul_smul₀ T.variableFactor_ne_zero]

/-- A landscape in the new frame. -/
noncomputable def landscape (T : Reframing n) (L : Landscape n) : Landscape n where
  value z := T.objectiveFactor * L.value (T.source z)
  gradient z := T.gradient (L.gradient (T.source z))
  hessian z := T.hessian (L.hessian (T.source z))

theorem carries_landscape (T : Reframing n) (L : Landscape n) :
    T.Carries L (T.landscape L) where
  value x := by simp only [landscape, source_point]
  gradient x := by simp only [landscape, source_point]
  hessian x := by simp only [landscape, source_point]

theorem abs_gradient (T : Reframing n) (g : Vector ℝ n) (i : Fin n) :
    |coords (T.gradient g) i| =
      T.objectiveFactor / |T.variableFactor| * |coords g (T.order i)| := by
  have hsign : |((T.sign i : ℤ) : ℝ)| = 1 := by
    rcases Int.units_eq_one_or (T.sign i) with hsign | hsign <;> simp [hsign]
  rw [T.gradient_turned g, turn_mulVec, Pi.smul_apply, smul_eq_mul, abs_mul, abs_mul, hsign,
    one_mul, gradientFactor, abs_div, abs_of_pos T.objectiveFactor_pos]

theorem isSatisfiedBy_gradient (T : Reframing n) (stopping : StoppingRule ℝ) (g : Vector ℝ n) :
    (T.stopping stopping).isSatisfiedBy (T.gradient g).toList =
      stopping.isSatisfiedBy g.toList := by
  have hscale : 0 < T.objectiveFactor / |T.variableFactor| :=
    div_pos T.objectiveFactor_pos (abs_pos.mpr T.variableFactor_ne_zero)
  have hcomponent (i : Fin n) : |coords (T.gradient g) i| ≤ (T.stopping stopping).tolerance ↔
      |coords g (T.order i)| ≤ stopping.tolerance := by
    rw [abs_gradient, Reframing.stopping, mul_le_mul_iff_right₀ hscale]
  rw [Bool.eq_iff_iff, StoppingRule.isSatisfiedBy_coords, StoppingRule.isSatisfiedBy_coords,
    forall_congr' hcomponent]
  exact Equiv.forall_congr_right T.order (q := fun i => |coords g i| ≤ stopping.tolerance)

/-! ## One iteration -/

variable {L L' : Landscape n} {a : ℝ} {method : Option (SecantRule × Safeguard ℝ)}

theorem descentDirection_reframed (T : Reframing n) (B : Grid ℝ n n) (g : Vector ℝ n)
    (k : Nat) :
    Alike Failure.SameCause (Turned T.turn T.variableFactor)
      (descentDirection (.ofGrid B) g k)
      (descentDirection (.ofGrid (T.hessian B)) (T.gradient g) k) := by
  have hinvertible :=
    (T.hessian_turned B).det_ne_zero_iff T.turn_orthogonal T.hessianFactor_pos.ne'
  by_cases hdet : B.toMatrix.det = 0
  · have hdet' : (T.hessian B).toMatrix.det = 0 := by
      by_contra hne
      exact hinvertible.mp hne hdet
    rw [descentDirection_of_det_eq_zero hdet, descentDirection_of_det_eq_zero hdet']
    exact .error rfl
  · obtain ⟨d, hdirection⟩ := exists_descentDirection hdet g k
    obtain ⟨d', hd'⟩ : ∃ d', Turned T.turn T.variableFactor d d' :=
      ⟨Vector.ofFn _, coords_ofFn _⟩
    have hsolves : B.toMatrix *ᵥ coords d = -coords g :=
      (descentDirection_eq_ok_iff.mp hdirection).2
    have hsolves' : (T.hessian B).toMatrix *ᵥ coords d' = -coords (T.gradient g) := by
      have himage := (T.hessian_turned B).mulVec T.turn_orthogonal hd'
      rw [← Grid.coords_mulVec, himage, Grid.coords_mulVec, hsolves, T.gradient_turned g,
        ← gradientFactor_eq, mulVec_neg, smul_neg]
    rw [hdirection, descentDirection_eq_ok_iff.mpr ⟨hinvertible.mpr hdet, hsolves'⟩]
    exact .ok hd'

theorem moved_reframed (T : Reframing n) (x : Vector ℝ n) {d d' : Vector ℝ n}
    (hd : Turned T.turn T.variableFactor d d') :
    Solver.moved (T.point x) d' a = T.point (Solver.moved x d a) := by
  apply coords_injective
  rw [Solver.coords_moved, coords_point, coords_point, Solver.coords_moved, hd, mulVec_add,
    mulVec_smul, smul_add, smul_comm a, add_right_comm]

theorem held_reframed (hL : T.Carries L L') {iterate other : Iterate ℝ n}
    (h : T.CarriesIterate iterate other) :
    ∃ B, L.held method iterate = .ofGrid B ∧ L'.held method other = .ofGrid (T.hessian B) := by
  rw [Landscape.held, Landscape.held, h.count]
  by_cases hasks : (method.isNone && decide (0 < iterate.count)) = true
  · rw [if_pos hasks, if_pos hasks, h.point, hL.hessian]
    exact ⟨L.hessian iterate.point, rfl, rfl⟩
  · rw [if_neg hasks, if_neg hasks]
    exact h.hessian

theorem refreshed_reframed (hL : T.Carries L L') (B : Grid ℝ n n) (x x' : Vector ℝ n) :
    Alike Failure.SameCause (fun A A' => ∃ H, A = .ofGrid H ∧ A' = .ofGrid (T.hessian H))
      (L.refreshed method (.ofGrid B) x x')
      (L'.refreshed method (.ofGrid (T.hessian B)) (T.point x) (T.point x')) := by
  cases method with
  | none => exact .ok ⟨B, rfl, rfl⟩
  | some method =>
      obtain ⟨rule, safeguard⟩ := method
      have hrefreshed := SecantRule.refresh_turned rule safeguard T.turn_orthogonal
        T.hessianFactor_pos.ne' T.variableFactor_ne_zero (T.hessian_turned B)
          (T.step_turned x x')
        (T.change_turned (L.gradient x) (L.gradient x'))
      rw [← hL.gradient, ← hL.gradient] at hrefreshed
      apply hrefreshed.map
      rintro refresh refresh' ⟨⟨A, A', hA, hA', hturned⟩, -⟩
      exact ⟨A, hA, by rw [hA', eq_hessian_of_turned hturned]⟩

theorem next_reframed (hL : T.Carries L L') {iterate other : Iterate ℝ n}
    (h : T.CarriesIterate iterate other) :
    Alike Failure.SameCause T.CarriesIterate (L.next a method iterate)
      (L'.next a method other) := by
  obtain ⟨B, hheld, hheld'⟩ : ∃ B, L.held method iterate = .ofGrid B ∧
      L'.held method other = .ofGrid (T.hessian B) := held_reframed hL h
  rw [Landscape.next, Landscape.next, hheld, hheld', h.gradient, h.count, h.point]
  apply Alike.bind (T.descentDirection_reframed B iterate.gradient (iterate.count + 1))
  intro d d' hd
  rw [T.moved_reframed iterate.point hd]
  apply Alike.bind (refreshed_reframed hL B iterate.point (Solver.moved iterate.point d a))
  intro A A' hA
  exact .ok ⟨rfl, rfl, hL.gradient _, hA⟩

theorem first_reframed (hL : T.Carries L L') (x : Vector ℝ n) :
    T.CarriesIterate (L.first x) (L'.first (T.point x)) where
  count := rfl
  point := rfl
  gradient := hL.gradient x
  hessian := ⟨L.hessian x, rfl, congrArg DenseMatrix.ofGrid (hL.hessian x)⟩

theorem report_reframed (hL : T.Carries L L') {last last' : Iterate ℝ n × Ending}
    (h : T.CarriesIterate last.1 last'.1 ∧ last'.2 = last.2) :
    T.CarriesReport (L.report last) (L'.report last') where
  iterations := h.1.count
  ending := h.2
  value := by
    have hvalue := hL.value last.1.point
    rw [← h.1.point] at hvalue
    exact hvalue
  point := ⟨last.1.point, rfl, congrArg Vector.toArray h.1.point⟩
  gradient := ⟨last.1.gradient, rfl, congrArg Vector.toArray h.1.gradient⟩
  hessian := h.1.hessian

end Reframing

/-! ## Whole runs -/

namespace Solver

variable {σ σ' : Type}

theorem validatePoint_reframed (T : Reframing n) (x : Vector ℝ n) :
    validatePoint (T.point x).toArray = validatePoint x.toArray := by
  have hexact (z : Vector ℝ n) : validatePoint z.toArray =
      if n = 0 then .error (.invalidArgument .emptyPoint) else .ok () := by
    simp [validatePoint, Array.isEmpty]
  rw [hexact, hexact]

theorem checkArguments_reframed (T : Reframing n) (solver : Solver σ ℝ) (solver' : Solver σ' ℝ)
    (hstep : solver'.step = solver.step) (x : Vector ℝ n) {stopping : StoppingRule ℝ}
    (hstopping : stopping.validate = .ok ()) :
    solver'.checkArguments (T.point x).toArray (T.stopping stopping) =
      solver.checkArguments x.toArray stopping := by
  have hstopping' : (T.stopping stopping).validate = .ok () := by
    obtain ⟨htolerance, hbudget⟩ := StoppingRule.validate_exact.mp hstopping
    have hc := T.objectiveFactor_pos
    refine StoppingRule.validate_exact.mpr ⟨?_, hbudget⟩
    rw [Reframing.stopping]
    positivity
  rw [checkArguments, checkArguments, hstopping, hstopping', hstep, validatePoint_reframed]

/-- A run of a secant method in another frame is the run in that frame: both
return reports of the same iterate, or both fail for the same cause. -/
theorem minimize_reframed (T : Reframing n) (L L' : Landscape n) (hL : T.Carries L L')
    (f : Objective σ ℝ) (f' : Objective σ' ℝ) (hf : f.Answers L) (hf' : f'.Answers L')
    (a : ℝ) (method : Option (SecantRule × Safeguard ℝ)) (x : Vector ℝ n)
    (stopping : StoppingRule ℝ) (hstopping : stopping.validate = .ok ()) (state : σ)
    (state' : σ') :
    Alike Failure.SameCause T.CarriesReport
      ((ofSecant a method).minimize f x.toArray stopping state).result
      ((ofSecant a method).minimize f' (T.point x).toArray (T.stopping stopping)
        state').result := by
  have hcheck : (ofSecant a method : Solver σ' ℝ).checkArguments (T.point x).toArray
      (T.stopping stopping) =
        (ofSecant a method : Solver σ ℝ).checkArguments x.toArray stopping :=
    checkArguments_reframed T _ _ rfl x hstopping
  have hreports : Alike Failure.SameCause T.CarriesReport
      (((ofSecant a method).minimize f x.toArray stopping state).result.map
        Report.withoutCalls)
      (((ofSecant a method).minimize f' (T.point x).toArray (T.stopping stopping)
        state').result.map Report.withoutCalls) := by
    rw [minimize_exact hf, minimize_exact hf', hcheck]
    cases (ofSecant a method : Solver σ ℝ).checkArguments x.toArray stopping with
    | error failure => exact .error (.refl failure)
    | ok _ =>
        have hmet (iterate other : Iterate ℝ n) (h : T.CarriesIterate iterate other) :
            (T.stopping stopping).isSatisfiedBy other.gradient.toList =
              stopping.isSatisfiedBy iterate.gradient.toList := by
          rw [h.gradient, T.isSatisfiedBy_gradient]
        have hbudget : (T.stopping stopping).maxIterations = stopping.maxIterations := rfl
        apply Alike.map (Landscape.last_alike hbudget hmet
          (fun _ _ h => Reframing.next_reframed hL h) (Reframing.first_reframed hL x))
        intro last last' h
        exact Reframing.report_reframed hL h
  apply hreports.of_map
  intro report other h
  exact ⟨h.iterations, h.ending, h.value, h.point, h.gradient, h.hessian⟩

noncomputable def mirrored : Reframing 2 where
  objectiveFactor := 18
  variableFactor := -3
  order := Fin.revPerm
  sign i := if i.val = 0 then 1 else -1
  origin := #v[1, -1]
  objectiveFactor_pos := by norm_num
  variableFactor_ne_zero := by norm_num

theorem minimize_mirrored :
    (⟨1, 5⟩ : StoppingRule ℝ).validate = .ok () ∧
      Alike Failure.SameCause mirrored.CarriesReport
        ((ofSecant 1 (some (.bfgs, ⟨.error, 0⟩))).minimize (Landscape.paraboloid 2 1).objective
          #[3, 4] ⟨1, 5⟩ ()).result
        ((ofSecant 1 (some (.bfgs, ⟨.error, 0⟩))).minimize
          (mirrored.landscape (Landscape.paraboloid 2 1)).objective
          (mirrored.point #v[3, 4]).toArray (mirrored.stopping ⟨1, 5⟩) ()).result := by
  have hstopping : (⟨1, 5⟩ : StoppingRule ℝ).validate = .ok () :=
    StoppingRule.validate_exact.mpr ⟨zero_le_one, by decide⟩
  exact ⟨hstopping, minimize_reframed mirrored (Landscape.paraboloid 2 1)
    (mirrored.landscape (Landscape.paraboloid 2 1)) (mirrored.carries_landscape _)
    (Landscape.paraboloid 2 1).objective
    (mirrored.landscape (Landscape.paraboloid 2 1)).objective
    (Landscape.objective_answers _) (Landscape.objective_answers _) 1
    (some (.bfgs, ⟨.error, 0⟩)) #v[3, 4] ⟨1, 5⟩ hstopping () ()⟩

end Solver

end SecantDescent
