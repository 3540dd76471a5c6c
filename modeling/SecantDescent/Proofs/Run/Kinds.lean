import SecantDescent.Proofs.Run.Failing
import SecantDescent.Proofs.Run.Heads
import SecantDescent.Proofs.Secant.Refresh

/-!
# Kinds of failures

The failures that a run has itself are about the shapes and the entries of what
it is answered, and about matrices that give no direction.  All others come from
its arguments, its callables and its rule.  A kind of failures that takes in the
former, and to which the callables and the rule keep, is therefore the kind of
every failure past the arguments.
-/

namespace SecantDescent

open Eval

variable {σ τ α β : Type} {kind : Failure α → Prop}

/-- Whenever the computation fails, the failure is of the kind. -/
def Eval.FailsAs (kind : Failure α → Prop) (act : Eval σ α β) : Prop :=
  ∀ state failure, (act.outcome state).1 = .error failure → kind failure

structure Objective.FailsAs (kind : Failure α → Prop) (f : Objective σ α) : Prop where
  cost : ∀ x, (f.cost x).FailsAs kind
  gradient : ∀ x, (f.gradient x).FailsAs kind
  hessian : ∀ x, (f.hessian x).FailsAs kind

/-- Steps that fit are all that a run gives to its rule. -/
def UpdateRule.FailsAs (kind : Failure α → Prop) (rule : UpdateRule σ α) : Prop :=
  ∀ held pair, pair.y.size = pair.s.size → (rule.refresh held pair).FailsAs kind

/-- The kind takes in the failures that a run has itself. -/
structure Failure.TakesOwn (kind : Failure α → Prop) : Prop where
  mismatch : ∀ argument expected actual, kind (.dimensionMismatch argument expected actual)
  singular : ∀ k, kind (.singularMatrix k)
  nonFinite : ∀ quantity k, kind (.nonFiniteValue quantity k)

theorem Eval.FailsAs.of_eq {act : Eval σ α β} (h : act.FailsAs kind) {state after : σ}
    {failure : Failure α} (hact : act.outcome state = (.error failure, after)) :
    kind failure :=
  h state failure (congrArg Prod.fst hact)

theorem Objective.FailsAs.counted {f : Objective σ α} (hf : f.FailsAs kind) :
    f.counted.FailsAs kind where
  cost x state := hf.cost x state.2
  gradient x state := hf.gradient x state.2
  hessian x state := hf.hessian x state.2

variable [Scalar α] {n : Nat}

theorem SecantRule.toUpdateRule_failsAs (hown : Failure.TakesOwn kind)
    (hdegenerate : ∀ method quantity value, kind (.degenerateUpdate method quantity value))
    (rule : SecantRule) (safeguard : Safeguard α) :
    (rule.toUpdateRule safeguard : UpdateRule σ α).FailsAs kind := by
  intro held pair hpair state failure hfailure
  rcases refresh_eq_error hpair hfailure with rfl | ⟨quantity, value, -, rfl⟩
  · exact hown.mismatch _ _ _
  · exact hdegenerate _ _ _

namespace Solver

variable {f : Objective σ α} {solver : Solver σ α} {failure : Failure α}
variable {session after : Session σ α}

theorem gradientAt_failsAs (hown : Failure.TakesOwn kind) (hf : f.FailsAs kind)
    {x : Vector α n}
    {k : Nat} (h : (gradientAt f x k).outcome session = (.error failure, after)) :
    kind failure := by
  rcases gradientAt_eq_error h with hanswer | ⟨answer, -, ⟨-, rfl⟩ | ⟨-, -, rfl⟩⟩
  · exact (hf.gradient _).of_eq hanswer
  · exact hown.mismatch _ _ _
  · exact hown.nonFinite _ _

theorem hessianAt_failsAs (hown : Failure.TakesOwn kind) (hf : f.FailsAs kind) {x : Vector α n}
    {k : Nat} (h : (hessianAt f x k).outcome session = (.error failure, after)) :
    kind failure := by
  rcases hessianAt_eq_error h with hanswer | ⟨answer, -, rfl | ⟨-, -, -, rfl⟩⟩
  · exact (hf.hessian _).of_eq hanswer
  · exact hown.mismatch _ _ _
  · exact hown.nonFinite _ _

theorem between_failsAs (hown : Failure.TakesOwn kind) {g : Objective τ α}
    (hg : g.FailsAs kind) {x x' : Array α} {state last : τ}
    (h : (SecantPair.between g x x').outcome state = (.error failure, last)) :
    kind failure := by
  rcases SecantPair.between_eq_error h with
    ⟨-, rfl⟩ | hfirst | ⟨_, _, -, hsecond | ⟨_, -, ⟨-, rfl⟩ | ⟨-, rfl⟩⟩⟩
  · exact hown.mismatch _ _ _
  · exact (hg.gradient _).of_eq hfirst
  · exact (hg.gradient _).of_eq hsecond
  · exact hown.mismatch _ _ _
  · exact hown.mismatch _ _ _

theorem matrixAfter_failsAs (hown : Failure.TakesOwn kind) (hf : f.FailsAs kind)
    (hsolver : ∀ rule, solver.rule = some rule → rule.FailsAs kind) {held : DenseMatrix α}
    {x x' : Vector α n} {k : Nat}
    (h : (solver.matrixAfter f held x x' k).outcome session = (.error failure, after)) :
    kind failure := by
  obtain ⟨rule, hrule, hpair | ⟨pair, middle, hpair, hrefresh | ⟨_, -, -, rfl⟩⟩⟩ :=
    matrixAfter_eq_error h
  · exact between_failsAs hown hf.counted hpair
  · obtain ⟨hsize, _, _, _, -, -, hgradient, hnext, rfl⟩ :=
      SecantPair.between_eq_ok_iff.mp hpair
    refine (hsolver rule hrule held _ ?_).of_eq hrefresh
    simp [hgradient, hnext]
  · exact hown.nonFinite _ _

theorem iteration_failsAs (hown : Failure.TakesOwn kind) (hf : f.FailsAs kind)
    (hsolver : ∀ rule, solver.rule = some rule → rule.FailsAs kind) {iterate : Iterate α n}
    (h : (solver.iteration f iterate).outcome session = (.error failure, after)) :
    kind failure := by
  rcases advance_eq_error (iteration_eq_error_iff.mp h) with
    hheld | ⟨_, _, -, hdirection | ⟨_, -, rfl | hafter | ⟨_, _, -, hgradient⟩⟩⟩
  · exact hessianAt_failsAs hown hf (matrixFor_eq_error hheld).2.2
  · rcases descentDirection_eq_error hdirection with ⟨-, rfl⟩ | rfl
    · exact hown.mismatch _ _ _
    · exact hown.singular _
  · exact hown.nonFinite _ _
  · exact matrixAfter_failsAs hown hf hsolver hafter
  · exact gradientAt_failsAs hown hf hgradient

theorem enter_failsAs (hown : Failure.TakesOwn kind) (hf : f.FailsAs kind) {point : Array α}
    {stopping : StoppingRule α}
    (h : (solver.enter f point stopping).outcome session = (.error failure, after)) :
    solver.checkArguments point stopping = .error failure ∨ kind failure := by
  rcases enter_eq_error h with hrefused | ⟨opened, hgradient | hhessian⟩
  · exact .inl hrefused
  · exact .inr (gradientAt_failsAs hown hf hgradient)
  · exact .inr (hessianAt_failsAs hown hf hhessian)

/-- A run that has not failed for its arguments fails in the kind. -/
theorem minimize_failsAs (hown : Failure.TakesOwn kind) (hf : f.FailsAs kind)
    (hsolver : ∀ rule, solver.rule = some rule → rule.FailsAs kind) {point : Array α}
    {stopping : StoppingRule α} {state : σ}
    (h : (solver.minimize f point stopping state).result = .error failure) :
    solver.checkArguments point stopping = .error failure ∨ kind failure := by
  rcases minimize_eq_error h with ⟨_, hbreaks⟩ | ⟨_, _, _, _, -, hcost⟩
  · cases hbreaks with
    | entering entered => exact enter_failsAs hown hf entered
    | iterating head room iterated => exact .inr (iteration_failsAs hown hf hsolver iterated)
  · exact .inr ((hf.cost _).of_eq (costAt_eq_error hcost))

end Solver

end SecantDescent
