import SecantDescent.Proofs.Run.WellShaped
import SecantDescent.Proofs.Run.Transcript

/-!
# The iteration a failure tells of

The failures that a run has itself tell of the iteration they belong to, and zero
stands for the look at the initial point.  What a callable fails with, and what a
secant rule does, tells of no iteration.
-/

namespace SecantDescent

open Eval

variable {σ α β : Type} {n : Nat}

def Failure.iteration? : Failure α → Option Nat
  | .singularMatrix k | .nonFiniteValue _ k | .maxIterationsReached k .. => some k
  | _ => none

/-- If the failure tells of an iteration, it is this one. -/
def Failure.TellsOf (failure : Failure α) (k : Nat) : Prop :=
  ∀ j, failure.iteration? = some j → j = k

theorem Failure.tellsOf_of_none {failure : Failure α} (h : failure.iteration? = none)
    (k : Nat) :
    failure.TellsOf k := by
  intro j hj
  rw [h] at hj
  cases hj

theorem Failure.tellsOf_of_some {failure : Failure α} {k : Nat}
    (h : failure.iteration? = some k) : failure.TellsOf k := by
  intro j hj
  rw [h] at hj
  exact (Option.some.inj hj).symm

def Eval.Unnumbered (act : Eval σ α β) : Prop :=
  ∀ state failure, (act.outcome state).1 = .error failure → failure.iteration? = none

/-- The callables have failures of their own only, such as an evaluation that
was given up. -/
structure Objective.Unnumbered (f : Objective σ α) : Prop where
  cost : ∀ x, (f.cost x).Unnumbered
  gradient : ∀ x, (f.gradient x).Unnumbered
  hessian : ∀ x, (f.hessian x).Unnumbered

def UpdateRule.Unnumbered (rule : UpdateRule σ α) : Prop :=
  ∀ held pair, (rule.refresh held pair).Unnumbered

theorem Objective.Unnumbered.transcribed {f : Objective σ α} (hf : f.Unnumbered) :
    f.transcribed.Unnumbered where
  cost x state := hf.cost x state.2
  gradient x state := hf.gradient x state.2
  hessian x state := hf.hessian x state.2

theorem UpdateRule.Unnumbered.transcribed {rule : UpdateRule σ α} (hrule : rule.Unnumbered) :
    rule.transcribed.Unnumbered :=
  fun held pair state => hrule held pair state.2

theorem SecantRule.toUpdateRule_unnumbered [Scalar α] (rule : SecantRule)
    (safeguard : Safeguard α) : (rule.toUpdateRule safeguard : UpdateRule σ α).Unnumbered := by
  intro held pair state failure hfailure
  change rule.refresh safeguard held pair = .error failure at hfailure
  have hsettle {m : Nat} {attempted : Except (Degeneracy α) (Grid α m m)}
      (h : rule.settle safeguard attempted = .error failure) : failure.iteration? = none := by
    obtain ⟨degeneracy, -, -, rfl⟩ := settle_eq_error h
    rfl
  unfold refresh at hfailure
  split at hfailure
  next =>
    cases hfailure
    rfl
  next =>
    simp only at hfailure
    split at hfailure
    next => exact hsettle hfailure
    next =>
      split at hfailure
      next => exact hsettle hfailure
      next =>
        cases hfailure
        rfl

namespace Solver

variable [Scalar α] {f : Objective σ α} {failure : Failure α} {session after : Session σ α}

theorem gradientAt_tells (hf : f.Unnumbered) {x : Vector α n} {k : Nat}
    (h : (gradientAt f x k).outcome session = (.error failure, after)) :
    failure.TellsOf k := by
  rcases gradientAt_eq_error h with hanswer | ⟨answer, -, ⟨-, rfl⟩ | ⟨-, -, rfl⟩⟩
  · exact Failure.tellsOf_of_none (hf.gradient _ _ _ (congrArg Prod.fst hanswer)) k
  · exact Failure.tellsOf_of_none rfl k
  · exact Failure.tellsOf_of_some rfl

theorem hessianAt_tells (hf : f.Unnumbered) {x : Vector α n} {k : Nat}
    (h : (hessianAt f x k).outcome session = (.error failure, after)) : failure.TellsOf k := by
  rcases hessianAt_eq_error h with hanswer | ⟨answer, -, rfl | ⟨-, -, -, rfl⟩⟩
  · exact Failure.tellsOf_of_none (hf.hessian _ _ _ (congrArg Prod.fst hanswer)) k
  · exact Failure.tellsOf_of_none rfl k
  · exact Failure.tellsOf_of_some rfl

theorem enter_tells (hf : f.Unnumbered) {point : Array α} {stopping : StoppingRule α}
    {solver : Solver σ α}
    (h : (solver.enter f point stopping).outcome session = (.error failure, after)) :
    failure.TellsOf 0 := by
  rcases enter_eq_error h with hrefused | ⟨opened, hgradient | hhessian⟩
  · obtain ⟨objection, rfl⟩ := checkArguments_eq_error hrefused
    exact Failure.tellsOf_of_none rfl 0
  · exact gradientAt_tells hf hgradient
  · exact hessianAt_tells hf hhessian

theorem between_unnumbered (hf : f.Unnumbered) {x x' : Array α} {state last : Tally × σ}
    (h : (SecantPair.between f.counted x x').outcome state = (.error failure, last)) :
    failure.iteration? = none := by
  have hcounted {x : Array α} {state last : Tally × σ}
      (h : (f.counted.gradient x).outcome state = (.error failure, last)) :
      failure.iteration? = none := by
    rw [Objective.counted, outcome_after, Prod.mk.injEq] at h
    exact hf.gradient _ _ _ h.1
  rcases SecantPair.between_eq_error h with
    ⟨-, rfl⟩ | hfirst | ⟨g, middle, -, hsecond | ⟨g', -, ⟨-, rfl⟩ | ⟨-, rfl⟩⟩⟩
  · rfl
  · exact hcounted hfirst
  · exact hcounted hsecond
  · rfl
  · rfl

theorem advance_tells (hf : f.Unnumbered) {solver : Solver σ α}
    (hsolver : ∀ rule, solver.rule = some rule → rule.Unnumbered) {iterate : Iterate α n}
    (h : (solver.advance f iterate).outcome session = (.error failure, after)) :
    failure.TellsOf (iterate.count + 1) := by
  rcases advance_eq_error h with
    hheld | ⟨held, first, -,
      hdirection | ⟨direction, -, rfl | hafter | ⟨B, second, -, hgradient⟩⟩⟩
  · exact hessianAt_tells hf (matrixFor_eq_error hheld).2.2
  · rcases descentDirection_eq_error hdirection with ⟨-, rfl⟩ | rfl
    · exact Failure.tellsOf_of_none rfl _
    · exact Failure.tellsOf_of_some rfl
  · exact Failure.tellsOf_of_some rfl
  · obtain ⟨rule, hrule, hpair | ⟨pair, middle, -, hrefresh | ⟨refresh, -, -, rfl⟩⟩⟩ :=
      matrixAfter_eq_error hafter
    · exact Failure.tellsOf_of_none (between_unnumbered hf hpair) _
    · exact Failure.tellsOf_of_none
        (hsolver rule hrule _ _ _ _ (congrArg Prod.fst hrefresh)) _
    · exact Failure.tellsOf_of_some rfl
  · exact gradientAt_tells hf hgradient

end Solver

end SecantDescent
