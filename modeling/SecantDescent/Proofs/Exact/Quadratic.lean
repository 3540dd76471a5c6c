import SecantDescent.Objective.Quadratic
import SecantDescent.Proofs.Exact.Course
import SecantDescent.Proofs.Exact.Elimination
import SecantDescent.Proofs.Exact.SecantEquation

/-!
# Runs on quadratic objectives

The gradient of a quadratic objective is affine, so that an iteration with
step length `a` multiplies it by `1 - a` when the matrix held is that of the
objective.  Every pair of points lies on the secant equation of this matrix,
and all methods keep it; they only differ in what they ask the objective for.
-/

namespace SecantDescent

open SecantDescent.Dense Matrix

variable {σ : Type} {n : Nat}

/-! ## The objective -/

namespace Quadratic

variable (A : Grid ℝ n n) (b : Vector ℝ n) (c : ℝ)

def ofParts : Quadratic ℝ where
  matrix := .ofGrid A
  linear := b.toArray
  constant := c

noncomputable def landscape : Landscape n where
  value x := dot x (A.mulVec x) * Scalar.half + dot b x + c
  gradient x := A.mulVec x + b
  hessian _ := A

variable {A b c}

theorem matrixAt_ofParts (x : Vector ℝ n) :
    (ofParts A b c).matrixAt x.toArray = .ok (A.mulVec x) :=
  dif_pos x.size_toArray

theorem valueAt_ofParts (x : Vector ℝ n) :
    (ofParts A b c).valueAt x.toArray = .ok ((landscape A b c).value x) := by
  have hsquare : dot? x.toArray (A.mulVec x).toArray = some (dot x (A.mulVec x)) := by
    obtain ⟨x, rfl⟩ := x
    exact dif_pos (A.mulVec ⟨x, rfl⟩).size_toArray
  have hlinear : dot? b.toArray x.toArray = some (dot b x) := by
    obtain ⟨b, rfl⟩ := b
    exact dif_pos x.size_toArray
  have hparts : (ofParts A b c).valueAt x.toArray = (do
      let square ← Failure.orClash (dot? x.toArray (A.mulVec x).toArray)
      let linear ← Failure.orClash (dot? b.toArray x.toArray)
      return square * Scalar.half + linear + c) := by
    rw [valueAt, matrixAt_ofParts]
    rfl
  rw [hparts, hsquare, hlinear]
  rfl

theorem gradientAt_ofParts (x : Vector ℝ n) :
    (ofParts A b c).gradientAt x.toArray = .ok ((landscape A b c).gradient x).toArray := by
  rw [gradientAt, matrixAt_ofParts]
  exact dif_pos b.size_toArray

theorem objective_answers :
    ((ofParts A b c).objective : Objective σ ℝ).Answers (landscape A b c) where
  cost x _ := valueAt_ofParts x
  gradient x _ := gradientAt_ofParts x
  hessian _ _ := rfl

/-- What is missing at a point from a solution of `A x = -b`. -/
def residual (A : Grid ℝ n n) (b x : Vector ℝ n) : Fin n → ℝ :=
  A.toMatrix *ᵥ coords x + coords b

/-- The iterations within the budget after which a residual that shrinks by the
factor `1 - a` is within the tolerance. -/
def hits (A : Grid ℝ n n) (b : Vector ℝ n) (a : ℝ) (stopping : StoppingRule ℝ)
    (x₀ : Vector ℝ n) : Set ℕ :=
  {k | k ≤ stopping.maxIterations.toNat ∧
    |1 - a| ^ k * Scalar.largestMagnitude (A.mulVec x₀ + b).toList ≤ stopping.tolerance}

theorem coords_residual (x : Vector ℝ n) : coords (A.mulVec x + b) = residual A b x := by
  rw [coords_add, Grid.coords_mulVec, residual]

theorem coords_gradient (x : Vector ℝ n) :
    coords ((landscape A b c).gradient x) = residual A b x :=
  coords_residual x

theorem secant_equation (x x' : Vector ℝ n) :
    A.toMatrix *ᵥ coords (x' - x) =
      coords ((landscape A b c).gradient x' - (landscape A b c).gradient x) := by
  rw [coords_sub, coords_sub, coords_gradient, coords_gradient, residual, residual, mulVec_sub,
    add_sub_add_right_eq_sub]

/-! ## One iteration -/

/-- The methods that keep the matrix of the objective: those that skip
degenerate updates, and ask for symmetry where the rule needs it. -/
def Keeps (A : Grid ℝ n n) : Option (SecantRule × Safeguard ℝ) → Prop
  | none => True
  | some (rule, safeguard) =>
      safeguard.policy = .skip ∧ 0 ≤ safeguard.tolerance ∧ (rule = .bfgs → A.toMatrix.IsSymm)

/-- Where a run from `x₀` stands after as many iterations as the iterate counts. -/
structure Along (A : Grid ℝ n n) (b : Vector ℝ n) (a : ℝ) (x₀ : Vector ℝ n)
    (iterate : Iterate ℝ n) : Prop where
  hessian : iterate.hessian = .ofGrid A
  gradient : iterate.gradient = A.mulVec iterate.point + b
  shrunk : residual A b iterate.point = (1 - a) ^ iterate.count • residual A b x₀
  start : iterate.count = 0 → iterate.point = x₀

variable {a : ℝ} {x₀ : Vector ℝ n} {iterate next : Iterate ℝ n}
variable {method : Option (SecantRule × Safeguard ℝ)}

theorem along_first : Along A b a x₀ ((landscape A b c).first x₀) where
  hessian := rfl
  gradient := rfl
  shrunk := by simp [Landscape.first]
  start _ := rfl

theorem Along.held (h : Along A b a x₀ iterate) :
    (landscape A b c).held method iterate = .ofGrid A := by
  rw [Landscape.held, h.hessian]
  exact ite_self _

theorem refreshed_landscape (hkeeps : Keeps A method) (x x' : Vector ℝ n) :
    (landscape A b c).refreshed method (.ofGrid A) x x' = .ok (.ofGrid A) := by
  cases method with
  | none => rfl
  | some method =>
      obtain ⟨hskip, htolerance, hsymm⟩ := hkeeps
      exact Landscape.refreshed_eq_self hskip htolerance hsymm (secant_equation x x')

theorem Along.next_eq_newton (h : Along A b a x₀ iterate) (hkeeps : Keeps A method) :
    (landscape A b c).next a method iterate = (landscape A b c).next a none iterate := by
  have hnewton : Keeps A none := trivial
  rw [Landscape.next, Landscape.next, h.held, h.held]
  simp only [refreshed_landscape hkeeps, refreshed_landscape hnewton]

theorem Along.exists_next (h : Along A b a x₀ iterate) (hdet : A.toMatrix.det ≠ 0)
    (hkeeps : Keeps A method) :
    ∃ next, (landscape A b c).next a method iterate = .ok next := by
  obtain ⟨direction, hdirection⟩ :=
    exists_descentDirection hdet iterate.gradient (iterate.count + 1)
  rw [← h.held] at hdirection
  rw [Landscape.next_of_direction hdirection, h.held, refreshed_landscape hkeeps]
  exact ⟨_, rfl⟩

theorem residual_moved {x direction : Vector ℝ n}
    (hdirection : A.toMatrix *ᵥ coords direction = -residual A b x) :
    residual A b (Solver.moved x direction a) = (1 - a) • residual A b x := by
  have hsplit : residual A b (Solver.moved x direction a) =
      residual A b x + a • A.toMatrix *ᵥ coords direction := by
    rw [residual, residual, Solver.coords_moved, mulVec_add, mulVec_smul, add_right_comm]
  rw [hsplit, hdirection, smul_neg, sub_smul, one_smul, sub_eq_add_neg]

theorem Along.of_next (h : Along A b a x₀ iterate) (hkeeps : Keeps A method)
    (hnext : (landscape A b c).next a method iterate = .ok next) : Along A b a x₀ next := by
  rw [h.next_eq_newton hkeeps] at hnext
  obtain ⟨direction, hdirection, hcount, hpoint, hgradient, hhessian⟩ :=
    Landscape.next_eq_ok_iff.mp hnext
  rw [h.held] at hdirection hhessian
  have hsolves : A.toMatrix *ᵥ coords direction = -residual A b iterate.point := by
    rw [(descentDirection_eq_ok_iff.mp hdirection).2, h.gradient, coords_residual]
  refine ⟨(Except.ok.inj hhessian).symm, hgradient, ?_, ?_⟩
  · rw [hpoint, residual_moved hsolves, h.shrunk, hcount, smul_smul, pow_succ']
  · intro hzero
    omega

theorem last_eq_newton (hkeeps : Keeps A method) (stopping : StoppingRule ℝ)
    (x₀ : Vector ℝ n) :
    (landscape A b c).last a method stopping x₀ =
      (landscape A b c).last a none stopping x₀ := by
  have hnewton : Keeps A none := trivial
  exact Landscape.last_congr (Along A b a x₀) (fun _ along => along.next_eq_newton hkeeps)
    (fun _ _ along => along.of_next hnewton) along_first

theorem Along.isSatisfiedBy_iff (h : Along A b a x₀ iterate) {stopping : StoppingRule ℝ}
    (hstopping : stopping.validate = .ok ()) :
    stopping.isSatisfiedBy iterate.gradient.toList = true ↔
      |1 - a| ^ iterate.count * Scalar.largestMagnitude (A.mulVec x₀ + b).toList ≤
        stopping.tolerance := by
  have hscaled : iterate.gradient.toList =
      (A.mulVec x₀ + b).toList.map ((1 - a) ^ iterate.count * ·) := by
    rw [toList_eq_ofFn, toList_eq_ofFn, List.map_ofFn, h.gradient, coords_residual,
      coords_residual, h.shrunk]
    rfl
  rw [stopping.isSatisfiedBy_exact (StoppingRule.validate_exact.mp hstopping).1, hscaled,
    Scalar.largestMagnitude_scaled, abs_pow]

end Quadratic

/-! ## Whole runs -/

namespace Solver

open Quadratic (ofParts landscape residual hits Keeps Along)

variable {point : Array ℝ} {A : Grid ℝ point.size point.size} {b : Vector ℝ point.size}
variable {c a : ℝ} {stopping : StoppingRule ℝ} {state : σ}
variable {method : Option (SecantRule × Safeguard ℝ)}
variable {iterate : Iterate ℝ point.size} {session : Session σ ℝ}

theorem AtHead.along (hkeeps : Keeps A method)
    (head : AtHead (ofSecant a method) (ofParts A b c).objective point stopping state iterate
      session) : Along A b a point.toVector iterate :=
  head.induct_exact Quadratic.objective_answers (Along A b a point.toVector)
    Quadratic.along_first fun _ _ along => along.of_next hkeeps

theorem Finishes.along (hkeeps : Keeps A method) {ending : Ending}
    (finish :
      Finishes (ofSecant a method) (ofParts A b c).objective point stopping state iterate
      session ending) : Along A b a point.toVector iterate :=
  finish.induct_exact Quadratic.objective_answers (Along A b a point.toVector)
    Quadratic.along_first fun _ _ along => along.of_next hkeeps

variable (point A b c state) in
theorem exists_report_on_quadratic (hkeeps : Keeps A method) (hpoint : point ≠ #[])
    (hdet : A.toMatrix.det ≠ 0) (ha : 0 < a) (hstopping : stopping.validate = .ok ()) :
    ∃ report, ((ofSecant a method).minimize (ofParts A b c).objective point stopping
      state).result = .ok report :=
  exists_report Quadratic.objective_answers hpoint ha hstopping
    fun _ _ head => (head.along hkeeps).exists_next hdet hkeeps

theorem AtHead.not_mem_hits (hkeeps : Keeps A method) (hstopping : stopping.validate = .ok ())
    (head : AtHead (ofSecant a method) (ofParts A b c).objective point stopping state iterate
      session) : iterate.count ∉ hits A b a stopping point.toVector := by
  intro hhit
  have hmet := ((head.along hkeeps).isSatisfiedBy_iff hstopping).mpr hhit.2
  rw [head.unmet] at hmet
  cases hmet

/-- A run ends after the first iteration that hits the tolerance, or it spends
its budget when there is none. -/
theorem Finishes.hits_cases (hkeeps : Keeps A method) (hstopping : stopping.validate = .ok ())
    {ending : Ending}
    (finish :
      Finishes (ofSecant a method) (ofParts A b c).objective point stopping state iterate
      session ending) :
    (ending = .converged ∧ IsLeast (hits A b a stopping point.toVector) iterate.count) ∨
    (ending = .maxIterations ∧ iterate.count = stopping.maxIterations.toNat ∧
      hits A b a stopping point.toVector = ∅) := by
  have hmet := (finish.along hkeeps).isSatisfiedBy_iff hstopping
  have hearlier (k : ℕ) (hk : k < iterate.count) : k ∉ hits A b a stopping point.toVector := by
    obtain ⟨earlier, before, head, hcount⟩ := finish.exists_head hk
    rw [← hcount]
    exact head.not_mem_hits hkeeps hstopping
  rcases finish.ending_cases with ⟨hending, hroom, hsatisfied⟩ | ⟨hending, hspent, hunmet⟩
  · refine .inl ⟨hending, ⟨hroom, hmet.mp hsatisfied⟩, fun k hhit => ?_⟩
    by_contra hless
    exact hearlier k (not_le.mp hless) hhit
  · refine .inr ⟨hending, hspent, Set.eq_empty_iff_forall_notMem.mpr fun k hhit => ?_⟩
    by_cases hlast : k = iterate.count
    · rw [hlast] at hhit
      rw [hmet.mpr hhit.2] at hunmet
      cases hunmet
    · have hroom := hhit.1
      exact hearlier k (by omega) hhit

theorem Finishes.of_full_step (hkeeps : Keeps A method)
    (hstopping : stopping.validate = .ok ()) {ending : Ending}
    (finish :
      Finishes (ofSecant 1 method) (ofParts A b c).objective point stopping state iterate
      session ending) :
    ending = .converged ∧ iterate.count ≤ 1 ∧
      (Scalar.largestMagnitude (A.mulVec point.toVector + b).toList ≤ stopping.tolerance →
        iterate.point = point.toVector) ∧
      (stopping.tolerance < Scalar.largestMagnitude (A.mulVec point.toVector + b).toList →
        A.toMatrix *ᵥ coords iterate.point = -coords b) := by
  obtain ⟨htolerance, hbudget⟩ := StoppingRule.validate_exact.mp hstopping
  have hlast := finish.along hkeeps
  have hone : 1 ∈ hits A b 1 stopping point.toVector := by
    have hroom : stopping.maxIterations.toNat ≠ 0 := by
      intro hzero
      exact hbudget (UInt64.toNat_inj.mp hzero)
    refine ⟨by omega, ?_⟩
    rw [sub_self, abs_zero, pow_one, zero_mul]
    exact htolerance
  rcases finish.hits_cases hkeeps hstopping with ⟨hending, hleast⟩ | ⟨-, -, hempty⟩
  · refine ⟨hending, hleast.2 hone, fun hmet => ?_, fun hunmet => ?_⟩
    · have hzero : 0 ∈ hits A b 1 stopping point.toVector := by
        refine ⟨Nat.zero_le _, ?_⟩
        rw [pow_zero, one_mul]
        exact hmet
      exact hlast.start (Nat.le_zero.mp (hleast.2 hzero))
    · have hmoved : iterate.count ≠ 0 := by
        intro hzero
        have hhit := hleast.1.2
        rw [hzero, pow_zero, one_mul] at hhit
        exact hunmet.not_ge hhit
      have hsolved : residual A b iterate.point = 0 := by
        rw [hlast.shrunk, sub_self, zero_pow hmoved, zero_smul]
      exact eq_neg_of_add_eq_zero_left hsolved
  · rw [hempty] at hone
    cases hone

/-- Newton's method with a fixed step length reports on every quadratic
objective whose matrix can be inverted.  The residual of the iterate number `k`
is the first one times `(1 - a) ^ k`, and the run ends at the first of them
within the tolerance.  A full step leads to the solution, unless the initial
point already meets the tolerance. -/
theorem newton_on_quadratic (point : Array ℝ) (A : Grid ℝ point.size point.size)
    (b : Vector ℝ point.size) (c a : ℝ) (stopping : StoppingRule ℝ) (state : σ)
    (hpoint : point ≠ #[]) (hdet : A.toMatrix.det ≠ 0) (ha : 0 < a)
    (hstopping : stopping.validate = .ok ()) :
    ∃ (report : Report ℝ) (last : Vector ℝ point.size),
      ((ofSecant a none).minimize (ofParts A b c).objective point stopping state).result =
        .ok report ∧
      report.point = last.toArray ∧
      (∀ k < report.iterations, ∃ iterate session,
        AtHead (ofSecant a none) (ofParts A b c).objective point stopping state iterate
            session ∧
          iterate.count = k) ∧
      (∀ iterate session,
        AtHead (ofSecant a none) (ofParts A b c).objective point stopping state iterate
          session →
        residual A b iterate.point = (1 - a) ^ iterate.count • residual A b point.toVector) ∧
      residual A b last = (1 - a) ^ report.iterations • residual A b point.toVector ∧
      ((report.ending = .converged ∧
          IsLeast (hits A b a stopping point.toVector) report.iterations) ∨
        (report.ending = .maxIterations ∧
          report.iterations = stopping.maxIterations.toNat ∧
          hits A b a stopping point.toVector = ∅)) ∧
      (a = 1 → report.ending = .converged ∧ report.iterations ≤ 1 ∧
        (Scalar.largestMagnitude (A.mulVec point.toVector + b).toList ≤ stopping.tolerance →
          report.point = point) ∧
        (stopping.tolerance < Scalar.largestMagnitude (A.mulVec point.toVector + b).toList →
          A.toMatrix *ᵥ coords last = -coords b)) := by
  have hkeeps : Keeps A none := trivial
  obtain ⟨report, hreport⟩ :=
    exists_report_on_quadratic point A b c state hkeeps hpoint hdet ha hstopping
  obtain ⟨iterate, session, ending, value, after, finish, -, rfl⟩ :=
    minimize_eq_ok_iff.mp hreport
  refine ⟨_, iterate.point, hreport, rfl, fun k hk => finish.exists_head hk,
    fun _ _ head => (head.along hkeeps).shrunk, (finish.along hkeeps).shrunk,
    finish.hits_cases hkeeps hstopping, ?_⟩
  rintro rfl
  obtain ⟨hending, hcount, hstays, hsolves⟩ := finish.of_full_step hkeeps hstopping
  refine ⟨hending, hcount, fun hmet => ?_, hsolves⟩
  exact congrArg Vector.toArray (hstays hmet)

def saddle : Grid ℝ 2 2 :=
  #v[#v[0, 1], #v[1, 0]]

theorem toMatrix_saddle : saddle.toMatrix = !![0, 1; 1, 0] := by
  ext i j
  fin_cases i <;> fin_cases j <;> rfl

theorem det_saddle : saddle.toMatrix.det ≠ 0 := by
  rw [toMatrix_saddle, det_fin_two_of]
  norm_num

theorem saddle_solution {x : Vector ℝ 2}
    (hsystem : saddle.toMatrix *ᵥ coords x = -coords #v[2, 3]) : x = #v[-3, -2] := by
  rw [toMatrix_saddle, coords_pair] at hsystem
  have hfirst := congrFun hsystem 0
  have hsecond := congrFun hsystem 1
  simp [mulVec, dotProduct, Fin.sum_univ_two] at hfirst hsecond
  apply coords_injective
  rw [coords_pair]
  funext i
  fin_cases i
  · exact hsecond
  · exact hfirst

theorem newton_on_saddle :
    saddle.toMatrix.det ≠ 0 ∧ (⟨0, 5⟩ : StoppingRule ℝ).validate = .ok () ∧
      ∃ report : Report ℝ,
        ((ofSecant 1 none).minimize (ofParts saddle #v[2, 3] 0).objective #[0, 0] ⟨0, 5⟩
          ()).result = .ok report ∧
        report.ending = .converged ∧ report.iterations ≤ 1 ∧ report.point = #[-3, -2] := by
  have hstopping : (⟨0, 5⟩ : StoppingRule ℝ).validate = .ok () :=
    StoppingRule.validate_exact.mpr ⟨le_rfl, by decide⟩
  obtain ⟨report, last, hreport, hpoint, -, -, -, -, hfull⟩ :=
    newton_on_quadratic #[0, 0] saddle
    #v[2, 3] 0 1 ⟨0, 5⟩ () (by simp) det_saddle one_pos hstopping
  obtain ⟨hending, hcount, -, hsolves⟩ := hfull rfl
  have hunmet : (0 : ℝ) <
      Scalar.largestMagnitude (saddle.mulVec (#v[0, 0] : Vector ℝ 2) + #v[2, 3]).toList := by
    by_contra hmet
    have hsmall := (largestMagnitude_toList_le_iff le_rfl).mp (not_lt.mp hmet) 0
    rw [coords_add, Grid.coords_mulVec, toMatrix_saddle, coords_pair, coords_pair] at hsmall
    norm_num at hsmall
  have hlast : last = #v[-3, -2] := saddle_solution (hsolves hunmet)
  refine ⟨det_saddle, hstopping, report, hreport, hending, hcount, ?_⟩
  rw [hpoint, hlast]

/-- A run that begins within the tolerance stays where it begins. -/
theorem newton_misses_solution :
    (Grid.identity 1 : Grid ℝ 1 1).toMatrix.det ≠ 0 ∧
      (⟨2, 10⟩ : StoppingRule ℝ).validate = .ok () ∧
      ∃ report : Report ℝ,
        ((ofSecant 1 none).minimize (ofParts (Grid.identity 1) #v[0] 0).objective #[1]
          ⟨2, 10⟩ ()).result = .ok report ∧
        report.point = #[1] ∧
        (Grid.identity 1 : Grid ℝ 1 1).toMatrix *ᵥ coords #v[1] ≠ -coords #v[0] := by
  have hstopping : (⟨2, 10⟩ : StoppingRule ℝ).validate = .ok () :=
    StoppingRule.validate_exact.mpr ⟨by norm_num, by decide⟩
  have hdet : (Grid.identity 1 : Grid ℝ 1 1).toMatrix.det ≠ 0 := by
    rw [Grid.toMatrix_identity, det_one]
    exact one_ne_zero
  have hsingle (x : ℝ) (i : Fin 1) : coords #v[x] i = x := by
    fin_cases i
    rfl
  have hkeeps : Keeps (Grid.identity 1 : Grid ℝ 1 1) none := trivial
  have hmet : Scalar.largestMagnitude
      ((Grid.identity 1).mulVec (#v[1] : Vector ℝ 1) + #v[0]).toList ≤ 2 := by
    apply (largestMagnitude_toList_le_iff (by norm_num)).mpr
    intro i
    rw [coords_add, Grid.coords_mulVec, Grid.toMatrix_identity, one_mulVec, Pi.add_apply,
      hsingle, hsingle]
    norm_num [abs_of_pos]
  obtain ⟨report, hreport⟩ := exists_report_on_quadratic #[1] (Grid.identity 1) #v[0] 0 ()
    hkeeps (by simp) hdet one_pos hstopping
  obtain ⟨iterate, session, ending, value, after, finish, -, rfl⟩ :=
    minimize_eq_ok_iff.mp hreport
  obtain ⟨-, -, hstays, -⟩ := finish.of_full_step hkeeps hstopping
  refine ⟨hdet, hstopping, _, hreport, congrArg Vector.toArray (hstays hmet), ?_⟩
  intro hsolves
  have hentry := congrFun hsolves 0
  rw [Grid.toMatrix_identity, one_mulVec, Pi.neg_apply, hsingle, hsingle] at hentry
  norm_num at hentry

/-! ## Methods that coincide -/

theorem minimize_eq_newton (hkeeps : Keeps A method) {report : Report ℝ}
    (hnewton :
      ((ofSecant a none).minimize (ofParts A b c).objective point stopping state).result =
      .ok report) :
    ∃ calls, ((ofSecant a method).minimize (ofParts A b c).objective point stopping
      state).result = .ok (report.withEvaluations calls) := by
  have hlast :=
    Quadratic.last_eq_newton (b := b) (c := c) (a := a) hkeeps stopping point.toVector
  have hsame := minimize_congr Quadratic.objective_answers hlast state
  apply Report.exists_calls
  rw [← Except.map_ok, ← hnewton]
  exact hsame

/-- On a quadratic objective whose matrix is symmetric and can be inverted the
three methods report the same, and hold the matrix of the objective in the end.
Broyden's good rule does not need the symmetry. -/
theorem methods_coincide_on_quadratic (point : Array ℝ) (A : Grid ℝ point.size point.size)
    (b : Vector ℝ point.size) (c a : ℝ) (stopping : StoppingRule ℝ) (state : σ)
    (hpoint : point ≠ #[]) (hdet : A.toMatrix.det ≠ 0) (ha : 0 < a)
    (hstopping : stopping.validate = .ok ()) :
    ∃ report,
      ((ofSecant a none).minimize (ofParts A b c).objective point stopping state).result =
        .ok report ∧
      report.hessian = .ofGrid A ∧
      (∀ tolerance, 0 ≤ tolerance → ∃ calls,
        ((ofSecant a (some (.goodBroyden, ⟨.skip, tolerance⟩))).minimize
          (ofParts A b c).objective point stopping state).result =
            .ok (report.withEvaluations calls)) ∧
      (A.toMatrix.IsSymm → ∀ tolerance, 0 ≤ tolerance → ∃ calls,
        ((ofSecant a (some (.bfgs, ⟨.skip, tolerance⟩))).minimize
          (ofParts A b c).objective point stopping state).result =
            .ok (report.withEvaluations calls)) := by
  have hkeeps : Keeps A none := trivial
  obtain ⟨report, hreport⟩ :=
    exists_report_on_quadratic point A b c state hkeeps hpoint hdet ha hstopping
  refine ⟨report, hreport, ?_, ?_, ?_⟩
  · obtain ⟨iterate, session, ending, value, after, finish, -, rfl⟩ :=
      minimize_eq_ok_iff.mp hreport
    exact (finish.along hkeeps).hessian
  · intro tolerance htolerance
    have hbroyden : Keeps A (some (.goodBroyden, ⟨.skip, tolerance⟩)) :=
      ⟨rfl, htolerance, nofun⟩
    exact minimize_eq_newton hbroyden hreport
  · intro hsymm tolerance htolerance
    have hbfgs : Keeps A (some (.bfgs, ⟨.skip, tolerance⟩)) :=
      ⟨rfl, htolerance, fun _ => hsymm⟩
    exact minimize_eq_newton hbfgs hreport

theorem methods_coincide_on_saddle :
    saddle.toMatrix.det ≠ 0 ∧ saddle.toMatrix.IsSymm ∧
      ∃ report,
        ((ofSecant 2⁻¹ none).minimize (ofParts saddle #v[2, 3] 0).objective #[0, 0] ⟨0, 5⟩
          ()).result = .ok report ∧
        report.hessian = .ofGrid saddle ∧
        ∃ calls, ((ofSecant 2⁻¹ (some (.bfgs, ⟨.skip, 0⟩))).minimize
          (ofParts saddle #v[2, 3] 0).objective #[0, 0] ⟨0, 5⟩ ()).result =
            .ok (report.withEvaluations calls) := by
  have hstopping : (⟨0, 5⟩ : StoppingRule ℝ).validate = .ok () :=
    StoppingRule.validate_exact.mpr ⟨le_rfl, by decide⟩
  have hsymm : saddle.toMatrix.IsSymm := by
    rw [toMatrix_saddle]
    exact IsSymm.ext fun i j => by fin_cases i <;> fin_cases j <;> rfl
  obtain ⟨report, hreport, hhessian, -, hbfgs⟩ := methods_coincide_on_quadratic #[0, 0] saddle
    #v[2, 3] 0 2⁻¹ ⟨0, 5⟩ () (by simp) det_saddle (by norm_num) hstopping
  exact ⟨det_saddle, hsymm, report, hreport, hhessian, hbfgs hsymm 0 le_rfl⟩

end Solver

end SecantDescent
