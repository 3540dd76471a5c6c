import SecantDescent.Proofs.Exact.Matrix
import SecantDescent.Proofs.Run.Failing
import SecantDescent.Proofs.Run.Heads
import SecantDescent.Proofs.Secant.Refresh

/-!
# Runs in exact arithmetic

In exact arithmetic the answers of total callables pass every check of a run.
What an iteration computes is then the function `Landscape.next` of the
iterate, which fails only where the direction or the refreshment fails, and a
fact about all iterates of a run follows from two facts about that function.
-/

namespace SecantDescent

open Eval

variable {σ : Type} {n : Nat}

/-- What total callables in `n` unknowns answer with.  Nothing ties the three
functions together. -/
structure Landscape (n : Nat) where
  value : Vector ℝ n → ℝ
  gradient : Vector ℝ n → Vector ℝ n
  hessian : Vector ℝ n → Grid ℝ n n

/-- At every point with `n` components the callables give the answers of the
landscape, whatever their state. -/
structure Objective.Answers (f : Objective σ ℝ) (L : Landscape n) : Prop where
  cost : ∀ x state, ((f.cost x.toArray).outcome state).1 = .ok (L.value x)
  gradient : ∀ x state, ((f.gradient x.toArray).outcome state).1 = .ok (L.gradient x).toArray
  hessian : ∀ x state, ((f.hessian x.toArray).outcome state).1 = .ok (.ofGrid (L.hessian x))

namespace Landscape

variable (L : Landscape n) (a : ℝ) (method : Option (SecantRule × Safeguard ℝ))

/-- The iterate a run begins with. -/
def first (x : Vector ℝ n) : Iterate ℝ n :=
  ⟨0, x, L.gradient x, .ofGrid (L.hessian x)⟩

/-- The matrix that a direction is computed from. -/
noncomputable def held (iterate : Iterate ℝ n) : DenseMatrix ℝ :=
  if method.isNone && 0 < iterate.count then .ofGrid (L.hessian iterate.point)
  else iterate.hessian

/-- The secant pair between two points. -/
noncomputable def pair (x x' : Vector ℝ n) : SecantPair ℝ :=
  ⟨(x' - x).toArray, (L.gradient x' - L.gradient x).toArray⟩

/-- The matrix held after a move. -/
noncomputable def refreshed (held : DenseMatrix ℝ) (x x' : Vector ℝ n) :
    Except (Failure ℝ) (DenseMatrix ℝ) :=
  match method with
  | none => .ok held
  | some (rule, safeguard) =>
      (rule.refresh safeguard held (L.pair x x')).map (Refresh.matrix held)

/-- One iteration with step length `a`. -/
noncomputable def next (iterate : Iterate ℝ n) : Except (Failure ℝ) (Iterate ℝ n) := do
  let held := L.held method iterate
  let direction ← descentDirection held iterate.gradient (iterate.count + 1)
  let x := Solver.moved iterate.point direction a
  let hessian ← L.refreshed method held iterate.point x
  return ⟨iterate.count + 1, x, L.gradient x, hessian⟩

variable {L a method} {iterate : Iterate ℝ n}

@[simp] theorem held_some (rule : SecantRule × Safeguard ℝ) (iterate : Iterate ℝ n) :
    L.held (some rule) iterate = iterate.hessian := rfl

theorem refreshed_ofGrid (L : Landscape n) (rule : SecantRule) (safeguard : Safeguard ℝ)
    (B : Grid ℝ n n) (x x' : Vector ℝ n) :
    L.refreshed (some (rule, safeguard)) (.ofGrid B) x x' =
      (rule.settle safeguard (rule.attempt safeguard.tolerance B (x' - x)
        (L.gradient x' - L.gradient x))).map (Refresh.matrix (.ofGrid B)) := by
  rw [refreshed, pair, SecantRule.refresh_ofGrid]

theorem refreshed_eq_ok {rule : SecantRule} {safeguard : Safeguard ℝ} {B : Grid ℝ n n}
    {x x' : Vector ℝ n} {A : DenseMatrix ℝ}
    (h : L.refreshed (some (rule, safeguard)) (.ofGrid B) x x' = .ok A) :
    A = .ofGrid B ∨ ∃ B', A = .ofGrid B' ∧
      rule.attempt safeguard.tolerance B (x' - x) (L.gradient x' - L.gradient x) = .ok B' := by
  rw [refreshed_ofGrid] at h
  cases hsettled : rule.settle safeguard
      (rule.attempt safeguard.tolerance B (x' - x) (L.gradient x' - L.gradient x)) with
  | error failure =>
      rw [hsettled] at h
      cases h
  | ok refresh =>
      rw [hsettled] at h
      cases h
      rcases SecantRule.settle_eq_ok hsettled with ⟨B', hattempt, rfl⟩
        | ⟨degeneracy, -, -, rfl⟩
      · exact .inr ⟨B', rfl, hattempt⟩
      · exact .inl rfl

theorem refreshed_eq_error {rule : SecantRule} {safeguard : Safeguard ℝ} {B : Grid ℝ n n}
    {x x' : Vector ℝ n} {failure : Failure ℝ}
    (h : L.refreshed (some (rule, safeguard)) (.ofGrid B) x x' = .error failure) :
    safeguard.policy = .error ∧
      ∃ quantity value, failure = .degenerateUpdate rule.name quantity value := by
  rw [refreshed_ofGrid] at h
  cases hsettled : rule.settle safeguard
      (rule.attempt safeguard.tolerance B (x' - x) (L.gradient x' - L.gradient x)) with
  | error cause =>
      obtain ⟨degeneracy, -, hpolicy, rfl⟩ := SecantRule.settle_eq_error hsettled
      rw [hsettled] at h
      cases h
      exact ⟨hpolicy, degeneracy.quantity, degeneracy.value, rfl⟩
  | ok refresh =>
      rw [hsettled] at h
      cases h

theorem next_of_error {failure : Failure ℝ}
    (h : descentDirection (L.held method iterate) iterate.gradient (iterate.count + 1) =
      .error failure) : L.next a method iterate = .error failure := by
  rw [next, h]
  rfl

theorem next_of_direction {direction : Vector ℝ n}
    (h : descentDirection (L.held method iterate) iterate.gradient (iterate.count + 1) =
      .ok direction) :
    L.next a method iterate =
      (L.refreshed method (L.held method iterate) iterate.point
        (Solver.moved iterate.point direction a)).map fun hessian =>
          ⟨iterate.count + 1, Solver.moved iterate.point direction a,
            L.gradient (Solver.moved iterate.point direction a), hessian⟩ := by
  rw [next, h]
  rfl

theorem next_eq_ok_iff {next : Iterate ℝ n} :
    L.next a method iterate = .ok next ↔ ∃ direction,
      descentDirection (L.held method iterate) iterate.gradient (iterate.count + 1) =
        .ok direction ∧
      next.count = iterate.count + 1 ∧
      next.point = Solver.moved iterate.point direction a ∧
      next.gradient = L.gradient next.point ∧
      L.refreshed method (L.held method iterate) iterate.point next.point =
        .ok next.hessian := by
  cases hdirection : descentDirection (L.held method iterate) iterate.gradient
      (iterate.count + 1) with
  | error failure => simp [next_of_error hdirection]
  | ok direction =>
      rw [next_of_direction hdirection]
      constructor
      · intro h
        cases hB : L.refreshed method (L.held method iterate) iterate.point
            (Solver.moved iterate.point direction a) with
        | error failure =>
            rw [hB] at h
            cases h
        | ok B =>
            rw [hB] at h
            cases h
            exact ⟨direction, rfl, rfl, rfl, rfl, hB⟩
      · rintro ⟨_, hsame, hcount, hpoint, hgradient, hB⟩
        cases hsame
        obtain ⟨count, point, gradient, hessian⟩ := next
        simp only at hcount hpoint hgradient hB
        subst hcount hpoint hgradient
        rw [hB]
        rfl

end Landscape

/-- Callables that give the answers of a landscape and refuse points of any
other length. -/
def Landscape.objective (L : Landscape n) : Objective σ ℝ :=
  .ofFunctions
    (fun x => if h : x.size = n then .ok (L.value ⟨x, h⟩) else .error .shapeClash)
    (fun x => if h : x.size = n then .ok (L.gradient ⟨x, h⟩).toArray else .error .shapeClash)
    (fun x => if h : x.size = n then .ok (.ofGrid (L.hessian ⟨x, h⟩)) else .error .shapeClash)

theorem Landscape.objective_answers (L : Landscape n) :
    (L.objective : Objective σ ℝ).Answers L where
  cost x state := by simp [objective, Objective.ofFunctions]
  gradient x state := by simp [objective, Objective.ofFunctions]
  hessian x state := by simp [objective, Objective.ofFunctions]

theorem StoppingRule.validate_exact {stopping : StoppingRule ℝ} :
    stopping.validate = .ok () ↔ 0 ≤ stopping.tolerance ∧ stopping.maxIterations ≠ 0 := by
  unfold validate
  by_cases htolerance : stopping.tolerance < 0
  · simp [htolerance]
  · by_cases hbudget : stopping.maxIterations = 0
    · simp [htolerance, hbudget]
    · simp [htolerance, hbudget, not_lt.mp htolerance]

theorem StoppingRule.isSatisfiedBy_coords (stopping : StoppingRule ℝ) (g : Vector ℝ n) :
    stopping.isSatisfiedBy g.toList = true ↔ ∀ i, |Dense.coords g i| ≤ stopping.tolerance := by
  rw [isSatisfiedBy, Dense.toList_eq_ofFn]
  simp

theorem StoppingRule.isSatisfiedBy_exact (stopping : StoppingRule ℝ)
    (htolerance : 0 ≤ stopping.tolerance) (gradient : List ℝ) :
    stopping.isSatisfiedBy gradient = true ↔
      Scalar.largestMagnitude gradient ≤ stopping.tolerance := by
  rw [Scalar.largestMagnitude_exact_le_iff htolerance, isSatisfiedBy]
  simp

theorem Solver.coords_moved (x direction : Vector ℝ n) (a : ℝ) :
    Dense.coords (moved x direction a) = Dense.coords x + a • Dense.coords direction := by
  funext ⟨i, hi⟩
  simp [moved, Dense.coords_mk, mul_comm]

/-! ## The result of an iteration -/

theorem Eval.fst_outcome_bind_of_ok {α β γ : Type} {act : Eval σ α β} {next : β → Eval σ α γ}
    {state : σ} {value : β} (h : (act.outcome state).1 = .ok value) :
    ((act >>= next).outcome state).1 =
      ((next value).outcome (act.outcome state).2).1 := by
  obtain ⟨result, after, hact⟩ : ∃ result after, act.outcome state = (result, after) :=
    ⟨_, _, rfl⟩
  rw [hact] at h
  rw [outcome_bind, hact, show result = .ok value from h]

theorem Eval.fst_outcome_bind_of_error {α β γ : Type} {act : Eval σ α β}
    {next : β → Eval σ α γ} {state : σ} {failure : Failure α}
    (h : (act.outcome state).1 = .error failure) :
    ((act >>= next).outcome state).1 = .error failure := by
  obtain ⟨result, after, hact⟩ : ∃ result after, act.outcome state = (result, after) :=
    ⟨_, _, rfl⟩
  rw [hact] at h
  rw [outcome_bind, hact, show result = .error failure from h]

namespace Solver

variable {f : Objective σ ℝ} {L : Landscape n} {a : ℝ}
variable {method : Option (SecantRule × Safeguard ℝ)}

theorem gradientAt_exact (hf : f.Answers L) (x : Vector ℝ n) (iteration : Nat)
    (state : Session σ ℝ) :
    ((gradientAt f x iteration).outcome state).1 = .ok (L.gradient x) := by
  have hanswer := hf.gradient x state.2.2
  exact congrArg Prod.fst (gradientAt_eq_ok_iff.mpr
    ⟨Scalar.allFinite_exact _, _, Prod.ext hanswer rfl, rfl⟩)

theorem hessianAt_exact (hf : f.Answers L) (x : Vector ℝ n) (iteration : Nat)
    (state : Session σ ℝ) :
    ((hessianAt f x iteration).outcome state).1 = .ok (.ofGrid (L.hessian x)) := by
  have hanswer := hf.hessian x state.2.2
  have hsquare : (DenseMatrix.ofGrid (L.hessian x)).FiniteSquare n :=
    ⟨rfl, rfl, DenseMatrix.allFinite_exact _⟩
  exact congrArg Prod.fst (hessianAt_eq_ok_iff.mpr ⟨hsquare, _, Prod.ext hanswer rfl, rfl⟩)

theorem costAt_exact (hf : f.Answers L) (x : Vector ℝ n) (state : Session σ ℝ) :
    ((costAt f x).outcome state).1 = .ok (L.value x) := by
  have hanswer := hf.cost x state.2.2
  exact congrArg Prod.fst (costAt_eq_ok_iff.mpr ⟨_, Prod.ext hanswer rfl, rfl⟩)

theorem between_exact (hf : f.Answers L) (x x' : Vector ℝ n) (state : Tally × σ) :
    ((SecantPair.between f.counted x.toArray x'.toArray).outcome state).1 =
      .ok (L.pair x x') := by
  have hgradient (z : Vector ℝ n) (middle : Tally × σ) :
      ((f.counted.gradient z.toArray).outcome middle).1 = .ok (L.gradient z).toArray := by
    rw [Objective.counted, outcome_after]
    exact hf.gradient z _
  refine congrArg Prod.fst (SecantPair.between_eq_ok_iff.mpr
    ⟨?_, _, _, _, Prod.ext (hgradient x _) rfl, Prod.ext (hgradient x' _) rfl, ?_, ?_, ?_⟩)
  · simp
  · simp
  · simp
  · rfl

theorem matrixFor_exact (hf : f.Answers L) (iterate : Iterate ℝ n) (state : Session σ ℝ) :
    (((ofSecant a method).matrixFor f iterate).outcome state).1 =
      .ok (L.held method iterate) := by
  have hnone : (ofSecant a method : Solver σ ℝ).rule.isNone = method.isNone := by
    simp [ofSecant]
  rw [matrixFor, hnone, Landscape.held]
  split
  · exact hessianAt_exact hf _ _ _
  · rfl

theorem matrixAfter_exact (hf : f.Answers L) (held : DenseMatrix ℝ) (x x' : Vector ℝ n)
    (iteration : Nat) (state : Session σ ℝ) :
    (((ofSecant a method).matrixAfter f held x x' iteration).outcome state).1 =
      L.refreshed method held x x' := by
  cases method with
  | none => rfl
  | some method =>
      obtain ⟨rule, safeguard⟩ := method
      have hadvance : ((UpdateRule.advance (rule.toUpdateRule safeguard).beneath f.counted held
          x.toArray x'.toArray).beneath.outcome state).1 =
            rule.refresh safeguard held (L.pair x x') := by
        rw [outcome_beneath, UpdateRule.advance,
          fst_outcome_bind_of_ok (between_exact hf x x' state.2)]
        rfl
      rw [Landscape.refreshed]
      cases hrefresh : rule.refresh safeguard held (L.pair x x') with
      | error failure =>
          rw [hrefresh] at hadvance
          exact fst_outcome_bind_of_error hadvance
      | ok refresh =>
          rw [hrefresh] at hadvance
          refine (fst_outcome_bind_of_ok hadvance).trans ?_
          rw [outcome_adopt, if_pos (DenseMatrix.allFinite_exact _)]
          rfl

/-- The result of an iteration is the next iterate of the landscape. -/
theorem iteration_exact (hf : f.Answers L) (iterate : Iterate ℝ n) (session : Session σ ℝ) :
    (((ofSecant a method).iteration f iterate).outcome session).1 =
      L.next a method iterate := by
  have hadvance : (((ofSecant a method).advance f iterate).outcome session).1 =
      L.next a method iterate := by
    rw [advance, fst_outcome_bind_of_ok (matrixFor_exact hf iterate session)]
    cases hdirection : descentDirection (L.held method iterate) iterate.gradient
        (iterate.count + 1) with
    | error failure =>
        rw [Landscape.next_of_error hdirection]
        rfl
    | ok direction =>
        rw [Landscape.next_of_direction hdirection]
        refine (fst_outcome_bind_of_ok (congrArg Prod.fst (outcome_ofExcept _ _))).trans ?_
        simp only [Scalar.allFinite_exact, Bool.not_true, Bool.false_eq_true, if_false]
        have hafter (state : Session σ ℝ) :
            (((ofSecant a method).matrixAfter f (L.held method iterate) iterate.point
              (moved iterate.point direction a) (iterate.count + 1)).outcome state).1 =
              L.refreshed method (L.held method iterate) iterate.point
                (moved iterate.point direction a) :=
          matrixAfter_exact hf _ _ _ _ state
        cases hrefreshed : L.refreshed method (L.held method iterate) iterate.point
            (moved iterate.point direction a) with
        | error failure =>
            rw [hrefreshed] at hafter
            exact fst_outcome_bind_of_error (hafter _)
        | ok B =>
            rw [hrefreshed] at hafter
            refine (fst_outcome_bind_of_ok (hafter _)).trans ?_
            refine (fst_outcome_bind_of_ok (gradientAt_exact hf _ _ _)).trans ?_
            rfl
  cases hnext : L.next a method iterate with
  | error failure =>
      rw [hnext] at hadvance
      exact fst_outcome_bind_of_error hadvance
  | ok next =>
      rw [hnext] at hadvance
      exact fst_outcome_bind_of_ok hadvance

theorem AtHead.gradient_ne_zero {solver : Solver σ ℝ} {f : Objective σ ℝ} {point : Array ℝ}
    {stopping : StoppingRule ℝ} {state : σ} (hstopping : stopping.validate = .ok ())
    {iterate : Iterate ℝ point.size} {session : Session σ ℝ}
    (head : AtHead solver f point stopping state iterate session) :
    Dense.coords iterate.gradient ≠ 0 := by
  intro hzero
  have hunmet := head.unmet
  have htolerance := (StoppingRule.validate_exact.mp hstopping).1
  have hmet : stopping.isSatisfiedBy iterate.gradient.toList = true := by
    rw [Dense.toList_eq_ofFn, hzero]
    simp [StoppingRule.isSatisfiedBy, htolerance]
  rw [hmet] at hunmet
  cases hunmet

/-! ## The result of a run -/

section Run

variable {point : Array ℝ} {L : Landscape point.size}
variable {stopping : StoppingRule ℝ} {state : σ}

theorem validatePoint_exact (hpoint : point ≠ #[]) : validatePoint point = .ok () := by
  simp [validatePoint, hpoint]

theorem validate_step_exact (ha : 0 < a) :
    (ofSecant a method : Solver σ ℝ).step.validate = .ok () := by
  have hpositive : ¬ a ≤ 0 := not_le.mpr ha
  simp [ofSecant, StepRule.validate, hpositive]

theorem eq_first_of_enter (hf : f.Answers L) {solver : Solver σ ℝ}
    {iterate : Iterate ℝ point.size} {session after : Session σ ℝ}
    (h : (solver.enter f point stopping).outcome session = (.ok iterate, after)) :
    iterate = L.first point.toVector := by
  obtain ⟨-, hcount, hpoint, middle, hgradient, hhessian⟩ := enter_eq_ok_iff.mp h
  have hgradient' := (gradientAt_exact hf point.toVector 0 _).symm.trans
    (congrArg Prod.fst hgradient)
  have hhessian' := (hessianAt_exact hf point.toVector 0 _).symm.trans
    (congrArg Prod.fst hhessian)
  obtain ⟨count, start, gradient, hessian⟩ := iterate
  simp only [Except.ok.injEq] at hcount hpoint hgradient' hhessian'
  rw [Landscape.first, hcount, hpoint, hgradient', hhessian']

theorem enter_exact_eq_error (hf : f.Answers L) {solver : Solver σ ℝ}
    {session after : Session σ ℝ} {failure : Failure ℝ}
    (h : (solver.enter f point stopping).outcome session = (.error failure, after)) :
    ∃ argument, failure = .invalidArgument argument := by
  rcases enter_eq_error h with hrefused | ⟨opened, h | h⟩
  · exact checkArguments_eq_error hrefused
  · have hanswer := gradientAt_exact hf point.toVector 0 opened
    rw [h] at hanswer
    cases hanswer
  · have hanswer := hessianAt_exact hf point.toVector 0 opened
    rw [h] at hanswer
    cases hanswer

theorem exists_enter (hf : f.Answers L) {solver : Solver σ ℝ} (hpoint : point ≠ #[])
    (hstopping : stopping.validate = .ok ()) (hstep : solver.step.validate = .ok ())
    (session : Session σ ℝ) :
    ∃ iterate after,
      (solver.enter f point stopping).outcome session = (.ok iterate, after) := by
  have hgradient :=
    gradientAt_exact hf point.toVector 0 (session.1.push (.started solver.name), session.2)
  have hhessian := hessianAt_exact hf point.toVector 0 ((gradientAt f point.toVector 0).outcome
    (session.1.push (.started solver.name), session.2)).2
  exact ⟨L.first point.toVector, _, enter_eq_ok_iff.mpr
    ⟨⟨hstopping, hstep, validatePoint_exact hpoint⟩, rfl, rfl, _, Prod.ext hgradient rfl,
      Prod.ext hhessian rfl⟩⟩

theorem next_of_iteration (hf : f.Answers L) {iterate next : Iterate ℝ point.size}
    {session after : Session σ ℝ}
    (h : ((ofSecant a method).iteration f iterate).outcome session = (.ok next, after)) :
    L.next a method iterate = .ok next :=
  (iteration_exact hf iterate session).symm.trans (congrArg Prod.fst h)

/-- What the first iterate has and every iteration keeps is true at every head. -/
theorem AtHead.induct_exact (hf : f.Answers L) (holds : Iterate ℝ point.size → Prop)
    (hfirst : holds (L.first point.toVector))
    (hnext : ∀ iterate next, holds iterate → L.next a method iterate = .ok next → holds next)
    {iterate : Iterate ℝ point.size} {session : Session σ ℝ}
    (head : AtHead (ofSecant a method) f point stopping state iterate session) :
    holds iterate := by
  induction head with
  | first entered unmet =>
      rw [eq_first_of_enter hf entered]
      exact hfirst
  | next head room iterated unmet ih => exact hnext _ _ ih (next_of_iteration hf iterated)

theorem Finishes.induct_exact (hf : f.Answers L) (holds : Iterate ℝ point.size → Prop)
    (hfirst : holds (L.first point.toVector))
    (hnext : ∀ iterate next, holds iterate → L.next a method iterate = .ok next → holds next)
    {iterate : Iterate ℝ point.size} {session : Session σ ℝ} {ending : Ending}
    (finish : Finishes (ofSecant a method) f point stopping state iterate session ending) :
    holds iterate := by
  cases finish with
  | atOnce entered met =>
      rw [eq_first_of_enter hf entered]
      exact hfirst
  | converged head room iterated met =>
      exact hnext _ _ (head.induct_exact hf holds hfirst hnext) (next_of_iteration hf iterated)
  | exhausted head spent => exact head.induct_exact hf holds hfirst hnext

/-- A run fails only where it enters and where an iteration fails. -/
theorem minimize_exact_eq_error (hf : f.Answers L) {failure : Failure ℝ}
    (h : ((ofSecant a method).minimize f point stopping state).result = .error failure) :
    (∃ after, ((ofSecant a method).enter f point stopping).outcome (#[], {}, state) =
      (.error failure, after)) ∨
      ∃ iterate session,
        AtHead (ofSecant a method) f point stopping state iterate session ∧
        L.next a method iterate = .error failure := by
  rcases minimize_eq_error h with ⟨after, hbreaks⟩ | ⟨iterate, session, _, after, -, hcost⟩
  · cases hbreaks with
    | entering entered => exact .inl ⟨after, entered⟩
    | @iterating iterate session _ _ head room iterated =>
        have hnext := (iteration_exact hf iterate session).symm.trans
          (congrArg Prod.fst iterated)
        exact .inr ⟨iterate, session, head, hnext⟩
  · have hanswer := costAt_exact hf iterate.point session
    rw [hcost] at hanswer
    cases hanswer

/-- A run whose iterations do not fail returns a report. -/
theorem exists_report (hf : f.Answers L) (hpoint : point ≠ #[]) (ha : 0 < a)
    (hstopping : stopping.validate = .ok ())
    (hheads : ∀ iterate session,
      AtHead (ofSecant a method) f point stopping state iterate session →
      ∃ next, L.next a method iterate = .ok next) :
    ∃ report, ((ofSecant a method).minimize f point stopping state).result = .ok report := by
  cases hresult : ((ofSecant a method).minimize f point stopping state).result with
  | ok report => exact ⟨report, rfl⟩
  | error failure =>
      exfalso
      rcases minimize_exact_eq_error hf hresult with
        ⟨after, hentered⟩ | ⟨iterate, session, head, hfailed⟩
      · obtain ⟨first, opened, hopened⟩ :=
          exists_enter hf hpoint hstopping (validate_step_exact ha) (#[], {}, state)
        rw [hentered] at hopened
        cases hopened
      · obtain ⟨next, hnext⟩ := hheads iterate session head
        rw [hfailed] at hnext
        cases hnext

end Run

end Solver

end SecantDescent
