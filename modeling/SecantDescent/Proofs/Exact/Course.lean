import SecantDescent.Proofs.Exact.Run
import SecantDescent.Proofs.Run.Alike

/-!
# The course of a run in exact arithmetic

With total callables a run goes along `Landscape.next` until the gradient is
within the tolerance, the budget is spent, or an iteration fails.
`Landscape.last` is the iterate at which that ends, and the report of a run is
read off it.  Two runs whose iterates stay in a relation end in that relation,
or they fail for the same cause.
-/

namespace SecantDescent

open Eval

variable {σ : Type} {n : Nat}

def Report.withoutCalls {α : Type} (report : Report α) : Report α :=
  report.withEvaluations {}

theorem Report.exists_calls {α : Type} {result : Except (Failure α) (Report α)}
    {report : Report α} (h : result.map withoutCalls = .ok report.withoutCalls) :
    ∃ calls, result = .ok (report.withEvaluations calls) := by
  cases result with
  | error failure => cases h
  | ok other =>
      have hfields : other.withoutCalls = report.withoutCalls := Except.ok.inj h
      have hother : other = other.withoutCalls.withEvaluations other.evaluations := rfl
      rw [hfields] at hother
      exact ⟨other.evaluations, congrArg Except.ok hother⟩

namespace Landscape

variable (L : Landscape n) (a : ℝ) (method : Option (SecantRule × Safeguard ℝ))
variable (stopping : StoppingRule ℝ)

/-- The last iterate, and why it is the last one, when `remaining` iterations
are left. -/
noncomputable def lastFrom : Nat → Iterate ℝ n → Except (Failure ℝ) (Iterate ℝ n × Ending)
  | 0, iterate => .ok (iterate, .maxIterations)
  | remaining + 1, iterate => do
      let next ← L.next a method iterate
      if stopping.isSatisfiedBy next.gradient.toList then
        return (next, .converged)
      else
        lastFrom remaining next

noncomputable def last (x : Vector ℝ n) : Except (Failure ℝ) (Iterate ℝ n × Ending) :=
  if stopping.isSatisfiedBy (L.first x).gradient.toList then
    .ok (L.first x, .converged)
  else
    L.lastFrom a method stopping stopping.maxIterations.toNat (L.first x)

/-- What a report says about the last iterate, the calls left out. -/
noncomputable def report (last : Iterate ℝ n × Ending) : Report ℝ :=
  Report.of last.1.point.toArray (L.value last.1.point) last.1.gradient.toArray
    last.1.hessian last.1.count last.2

variable {L a method stopping} {iterate next : Iterate ℝ n}

theorem lastFrom_of_error {failure : Failure ℝ} (h : L.next a method iterate = .error failure)
    (remaining : Nat) :
    L.lastFrom a method stopping (remaining + 1) iterate = .error failure := by
  rw [lastFrom, h]
  rfl

theorem lastFrom_of_ok (h : L.next a method iterate = .ok next) (remaining : Nat) :
    L.lastFrom a method stopping (remaining + 1) iterate =
      if stopping.isSatisfiedBy next.gradient.toList then .ok (next, .converged)
      else L.lastFrom a method stopping remaining next := by
  rw [lastFrom, h]
  rfl

theorem lastFrom_congr {method' : Option (SecantRule × Safeguard ℝ)}
    (holds : Iterate ℝ n → Prop)
    (hsame : ∀ iterate, holds iterate → L.next a method' iterate = L.next a method iterate)
    (hnext : ∀ iterate next, holds iterate → L.next a method iterate = .ok next → holds next)
    (remaining : Nat) {iterate : Iterate ℝ n} (h : holds iterate) :
    L.lastFrom a method' stopping remaining iterate =
      L.lastFrom a method stopping remaining iterate := by
  induction remaining generalizing iterate with
  | zero => rfl
  | succ remaining ih =>
      have hsteps := hsame iterate h
      cases hstep : L.next a method iterate with
      | error failure =>
          rw [lastFrom_of_error hstep, lastFrom_of_error (hsteps.trans hstep)]
      | ok next =>
          rw [lastFrom_of_ok hstep, lastFrom_of_ok (hsteps.trans hstep),
            ih (hnext iterate next h hstep)]

theorem last_congr {method' : Option (SecantRule × Safeguard ℝ)} (holds : Iterate ℝ n → Prop)
    (hsame : ∀ iterate, holds iterate → L.next a method' iterate = L.next a method iterate)
    (hnext : ∀ iterate next, holds iterate → L.next a method iterate = .ok next → holds next)
    {x : Vector ℝ n} (hfirst : holds (L.first x)) :
    L.last a method' stopping x = L.last a method stopping x := by
  rw [last, last, lastFrom_congr holds hsame hnext _ hfirst]

end Landscape

/-! ## The report of a run -/

namespace Solver

variable {f : Objective σ ℝ} {L : Landscape n} {a : ℝ}
variable {method : Option (SecantRule × Safeguard ℝ)} {stopping : StoppingRule ℝ}

theorem conclude_exact (hf : f.Answers L) (last : Iterate ℝ n × Ending)
    (session : Session σ ℝ) :
    ((conclude f stopping last.1 last.2).outcome session).1.map Report.withoutCalls =
      .ok (L.report last) := by
  have hcost := costAt_exact hf last.1.point session
  have hconclude : (conclude f stopping last.1 last.2).outcome session =
      (.ok _, _) :=
    conclude_eq_ok_iff.mpr ⟨_, _, Prod.ext hcost rfl, rfl, rfl⟩
  rw [hconclude]
  rfl

theorem iterateFrom_exact (hf : f.Answers L) (remaining : Nat) (iterate : Iterate ℝ n)
    (session : Session σ ℝ) :
    (((ofSecant a method).iterateFrom f stopping remaining iterate).outcome session).1.map
        Report.withoutCalls =
      (L.lastFrom a method stopping remaining iterate).map L.report := by
  induction remaining generalizing iterate session with
  | zero =>
      rw [iterateFrom]
      exact conclude_exact hf (iterate, .maxIterations) session
  | succ remaining ih =>
      have hiteration : (((ofSecant a method).iteration f iterate).outcome session).1 =
          L.next a method iterate := iteration_exact hf iterate session
      cases hnext : L.next a method iterate with
      | error failure =>
          rw [hnext] at hiteration
          rw [iterateFrom, fst_outcome_bind_of_error hiteration,
            Landscape.lastFrom_of_error hnext]
          rfl
      | ok next =>
          rw [hnext] at hiteration
          rw [iterateFrom, fst_outcome_bind_of_ok hiteration, Landscape.lastFrom_of_ok hnext]
          by_cases hmet : stopping.isSatisfiedBy next.gradient.toList = true
          · rw [if_pos hmet, if_pos hmet]
            exact conclude_exact hf (next, .converged) _
          · rw [if_neg hmet, if_neg hmet]
            exact ih next _

theorem initialIterate_exact (hf : f.Answers L) (x : Vector ℝ n) (session : Session σ ℝ) :
    ((initialIterate f x).outcome session).1 = .ok (L.first x) := by
  rw [initialIterate, fst_outcome_bind_of_ok (gradientAt_exact hf x 0 session),
    fst_outcome_bind_of_ok (hessianAt_exact hf x 0 _)]
  rfl

/-- A run refuses its arguments or reports the last iterate. -/
theorem minimize_exact (hf : f.Answers L) (x : Vector ℝ n) (state : σ) :
    ((ofSecant a method).minimize f x.toArray stopping state).result.map Report.withoutCalls =
      match (ofSecant a method : Solver σ ℝ).checkArguments x.toArray stopping with
      | .error failure => .error failure
      | .ok () => (L.last a method stopping x).map L.report := by
  obtain ⟨point, rfl⟩ := x
  rw [minimize_result, run]
  have henter := outcome_enter (ofSecant a method) f point stopping (#[], {}, state)
  cases hcheck : (ofSecant a method : Solver σ ℝ).checkArguments point stopping with
  | error failure =>
      rw [hcheck] at henter
      rw [fst_outcome_bind_of_error (congrArg Prod.fst henter)]
      rfl
  | ok _ =>
      rw [hcheck] at henter
      have hfirst := (congrArg Prod.fst henter).trans (initialIterate_exact hf ⟨point, rfl⟩ _)
      rw [fst_outcome_bind_of_ok hfirst, Landscape.last]
      by_cases hmet : stopping.isSatisfiedBy (L.first ⟨point, rfl⟩).gradient.toList = true
      · rw [if_pos hmet, if_pos hmet]
        exact conclude_exact hf (L.first ⟨point, rfl⟩, .converged) _
      · rw [if_neg hmet, if_neg hmet]
        exact iterateFrom_exact hf _ _ _

theorem minimize_congr (hf : f.Answers L) {method' : Option (SecantRule × Safeguard ℝ)}
    {x : Vector ℝ n} (hlast : L.last a method' stopping x = L.last a method stopping x)
    (state : σ) :
    ((ofSecant a method').minimize f x.toArray stopping state).result.map Report.withoutCalls =
      ((ofSecant a method).minimize f x.toArray stopping state).result.map
        Report.withoutCalls := by
  have hcheck : (ofSecant a method' : Solver σ ℝ).checkArguments x.toArray stopping =
      (ofSecant a method : Solver σ ℝ).checkArguments x.toArray stopping := rfl
  rw [minimize_exact hf, minimize_exact hf, hcheck, hlast]

end Solver

/-! ## Two runs -/

/-- The same failure, except that a degenerate quantity may have another value. -/
def Failure.SameCause {α : Type} : Failure α → Failure α → Prop
  | .degenerateUpdate method quantity _, other =>
      ∃ value, other = .degenerateUpdate method quantity value
  | failure, other => other = failure

theorem Failure.SameCause.refl {α : Type} (failure : Failure α) :
    failure.SameCause failure := by
  cases failure with
  | degenerateUpdate method quantity value => exact ⟨value, rfl⟩
  | _ => rfl

namespace Landscape

variable {L L' : Landscape n} {a a' : ℝ} {method method' : Option (SecantRule × Safeguard ℝ)}
variable {stopping stopping' : StoppingRule ℝ} {related : Iterate ℝ n → Iterate ℝ n → Prop}

theorem lastFrom_alike
    (hmet : ∀ iterate other, related iterate other →
      stopping'.isSatisfiedBy other.gradient.toList =
        stopping.isSatisfiedBy iterate.gradient.toList)
    (hnext : ∀ iterate other, related iterate other →
      Alike Failure.SameCause related (L.next a method iterate) (L'.next a' method' other))
    (remaining : Nat) {iterate other : Iterate ℝ n} (h : related iterate other) :
    Alike Failure.SameCause (fun last last' => related last.1 last'.1 ∧ last'.2 = last.2)
      (L.lastFrom a method stopping remaining iterate)
      (L'.lastFrom a' method' stopping' remaining other) := by
  induction remaining generalizing iterate other with
  | zero => exact .ok ⟨h, rfl⟩
  | succ remaining ih =>
      apply Alike.bind (hnext iterate other h)
      intro next next' hrelated
      apply Alike.ite (by rw [hmet next next' hrelated])
      · exact .ok ⟨hrelated, rfl⟩
      · exact ih hrelated

theorem last_alike
    (hbudget : stopping'.maxIterations = stopping.maxIterations)
    (hmet : ∀ iterate other, related iterate other →
      stopping'.isSatisfiedBy other.gradient.toList =
        stopping.isSatisfiedBy iterate.gradient.toList)
    (hnext : ∀ iterate other, related iterate other →
      Alike Failure.SameCause related (L.next a method iterate) (L'.next a' method' other))
    {x x' : Vector ℝ n} (h : related (L.first x) (L'.first x')) :
    Alike Failure.SameCause (fun last last' => related last.1 last'.1 ∧ last'.2 = last.2)
      (L.last a method stopping x) (L'.last a' method' stopping' x') := by
  rw [last, last, hbudget]
  apply Alike.ite (by rw [hmet _ _ h])
  · exact .ok ⟨h, rfl⟩
  · exact lastFrom_alike hmet hnext _ h

end Landscape

end SecantDescent
