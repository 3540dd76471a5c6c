import SecantDescent.Proofs.Run.Heads
import SecantDescent.Proofs.Run.Transcript

/-!
# Pre- and postconditions

What holds of a record after a computation that began with a record as the
precondition has it: one thing when the computation returns a value, another
when it fails.  A run meets what its parts meet, when the invariant in between
is one of the iterate and the record.
-/

namespace SecantDescent

open Eval

variable {σ α β γ ω ρ τ : Type}

namespace Eval

def Ends (post : β → ρ → Prop) (broken : Failure α → ρ → Prop) :
    Except (Failure α) β → ρ → Prop
  | .ok value, after => post value after
  | .error failure, after => broken failure after

/-- What holds of the record in both cases. -/
theorem Ends.always {always : ρ → Prop} {result : Except (Failure α) β} {after : ρ}
    (h : Ends (fun _ => always) (fun _ => always) result after) : always after := by
  cases result with
  | ok value => exact h
  | error failure => exact h

theorem Ends.exists_error {post : β → ρ → Prop} {broken : Failure α → ρ → Prop}
    {result : Except (Failure α) β} {after : ρ} (h : Ends post broken result after)
    (hnone : ∀ value, ¬ post value after) :
    ∃ failure, result = .error failure ∧ broken failure after := by
  cases result with
  | ok value => exact absurd h (hnone value)
  | error failure => exact ⟨failure, rfl, h⟩

def Meets (record : ω → ρ) (pre : ρ → Prop) (act : Eval ω α β) (post : β → ρ → Prop)
    (broken : Failure α → ρ → Prop) : Prop :=
  ∀ state, pre (record state) →
    Ends post broken (act.outcome state).1 (record (act.outcome state).2)

namespace Meets

variable {record : ω → ρ} {pre : ρ → Prop} {act : Eval ω α β} {post : β → ρ → Prop}
variable {broken : Failure α → ρ → Prop}

theorem intro (hok : ∀ state value after, pre (record state) →
      act.outcome state = (.ok value, after) → post value (record after))
    (herror : ∀ state failure after, pre (record state) →
      act.outcome state = (.error failure, after) → broken failure (record after)) :
    Meets record pre act post broken := by
  intro state hpre
  rcases hact : act.outcome state with ⟨failure | value, after⟩
  · exact herror state failure after hpre hact
  · exact hok state value after hpre hact

theorem ofExcept {result : Except (Failure α) β}
    (hok : ∀ value lines, result = .ok value → pre lines → post value lines)
    (herror : ∀ failure lines, result = .error failure → pre lines → broken failure lines) :
    Meets record pre (.ofExcept result) post broken := by
  apply intro
  · intro state value after hpre hact
    cases hact
    exact hok value _ rfl hpre
  · intro state failure after hpre hact
    cases hact
    exact herror failure _ rfl hpre

/-- A check that touches nothing. -/
theorem checked (result : Except (Failure α) β)
    (hbroken : ∀ failure lines, pre lines → broken failure lines) :
    Meets record pre (.ofExcept result) (fun _ => pre) broken :=
  ofExcept (fun _ _ _ hpre => hpre) (fun failure lines _ hpre => hbroken failure lines hpre)

theorem pure {value : β} (h : ∀ lines, pre lines → post value lines) :
    Meets record pre (pure value : Eval ω α β) post broken :=
  fun state hpre => h (record state) hpre

theorem throw {failure : Failure α} (h : ∀ lines, pre lines → broken failure lines) :
    Meets record pre (throw failure : Eval ω α β) post broken :=
  fun state hpre => h (record state) hpre

theorem bind {mid : β → ρ → Prop} {post : γ → ρ → Prop} {next : β → Eval ω α γ}
    (h : Meets record pre act mid broken)
    (hnext : ∀ value, Meets record (mid value) (next value) post broken) :
    Meets record pre (act >>= next) post broken := by
  intro state hpre
  have hact := h state hpre
  rw [outcome_bind]
  generalize act.outcome state = ended at hact ⊢
  rcases ended with ⟨failure | value, after⟩
  · exact hact
  · exact hnext value after hact

theorem ite {condition : Prop} [Decidable condition] {other : Eval ω α β}
    (h : condition → Meets record pre act post broken)
    (hother : ¬ condition → Meets record pre other post broken) :
    Meets record pre (if condition then act else other) post broken := by
  by_cases hcondition : condition
  · rw [if_pos hcondition]
    exact h hcondition
  · rw [if_neg hcondition]
    exact hother hcondition

theorem mono {post' : β → ρ → Prop} {broken' : Failure α → ρ → Prop}
    (h : Meets record pre act post broken)
    (hpost : ∀ value lines, post value lines → post' value lines)
    (hbroken : ∀ failure lines, broken failure lines → broken' failure lines) :
    Meets record pre act post' broken' := by
  intro state hpre
  have hact := h state hpre
  generalize act.outcome state = ended at hact ⊢
  rcases ended with ⟨failure | value, after⟩
  · exact hbroken failure _ hact
  · exact hpost value _ hact

theorem mono_pre {pre' : ρ → Prop} (h : Meets record pre act post broken)
    (hpre : ∀ lines, pre' lines → pre lines) : Meets record pre' act post broken :=
  fun state hstate => h state (hpre _ hstate)

/-- A part of the precondition that is not about the record. -/
theorem of_fact {fact : Prop} (h : fact → Meets record pre act post broken) :
    Meets record (fun lines => fact ∧ pre lines) act post broken :=
  fun state hpre => h hpre.1 state hpre.2

/-- The computation itself has the value or the failure in some state. -/
theorem with_result (h : Meets record pre act post broken) :
    Meets record pre act
      (fun value lines => (∃ state, (act.outcome state).1 = .ok value) ∧ post value lines)
      (fun failure lines => (∃ state, (act.outcome state).1 = .error failure) ∧
        broken failure lines) := by
  intro state hpre
  have hends := h state hpre
  cases hact : (act.outcome state).1 with
  | ok value =>
      rw [hact] at hends
      exact ⟨⟨state, hact⟩, hends⟩
  | error failure =>
      rw [hact] at hends
      exact ⟨⟨state, hact⟩, hends⟩

theorem beneath (h : Meets record pre act post broken) :
    Meets (fun state : τ × ω => record state.2) pre act.beneath post broken :=
  fun state hpre => h state.2 hpre

end Meets

end Eval

/-- The transcripts that are one of the given ones and a line more. -/
def After (before : Transcript α → Prop) (line : Exchange α) (lines : Transcript α) : Prop :=
  ∃ earlier, before earlier ∧ lines = earlier ++ [line]

theorem Puts.meets {record : ω → Transcript α} {line : Except (Failure α) β → Exchange α}
    {act : Eval ω α β} (h : Puts record line act) (before : Transcript α → Prop) :
    Meets record before act (fun answer => After before (line (.ok answer)))
      (fun failure => After before (line (.error failure))) := by
  apply Meets.intro
  · intro state answer after hbefore hact
    have hput := h.put state
    rw [hact] at hput
    exact ⟨record state, hbefore, hput⟩
  · intro state failure after hbefore hact
    have hput := h.put state
    rw [hact] at hput
    exact ⟨record state, hbefore, hput⟩

/-! ## Whole runs -/

namespace Solver

variable [Scalar α] {solver : Solver σ α} {f : Objective σ α} {record : Tally × σ → ρ}
variable {pre : ρ → Prop} {final : DenseMatrix α → ρ → Prop} {broken : Failure α → ρ → Prop}
variable {stopping : StoppingRule α}

/-- What a record below the log says of a session. -/
abbrev belowLog (record : Tally × σ → ρ) (session : Session σ α) : ρ :=
  record session.2

omit [Scalar α] in
theorem tell_meets (event : Event α) :
    Meets (belowLog record) pre (tell event) (fun _ => pre) broken :=
  fun _ hpre => hpre

section

variable {n : Nat} {inv : Iterate α n → ρ → Prop}

theorem conclude_meets
    (hcost : ∀ iterate, Meets (belowLog record) (inv iterate) (costAt f iterate.point)
      (fun _ => final iterate.hessian) broken)
    (iterate : Iterate α n) (ending : Ending) :
    Meets (belowLog record) (inv iterate) (conclude f stopping iterate ending)
      (fun report => final report.hessian) broken := by
  apply (hcost iterate).bind
  intro value
  apply (tell_meets _).bind
  intro _
  exact fun _ hfinal => hfinal

/-- The assertions in between are those with the matrix that the direction is
computed from, with the direction, and with the matrix after the move. -/
theorem advance_meets {iterate : Iterate α n} {start : ρ → Prop}
    {consulted directed : DenseMatrix α → ρ → Prop}
    {refreshed : Vector α n → DenseMatrix α → ρ → Prop}
    (hmatrix : Meets (belowLog record) start (solver.matrixFor f iterate) consulted broken)
    (hdirection : ∀ held, Meets (belowLog record : Session σ α → ρ) (consulted held)
      (.ofExcept (descentDirection held iterate.gradient (iterate.count + 1)))
      (fun _ => directed held) broken)
    (hpoint : ∀ held lines, directed held lines →
      broken (.nonFiniteValue "point" (iterate.count + 1)) lines)
    (hafter : ∀ held x, Meets (belowLog record) (directed held)
      (solver.matrixAfter f held iterate.point x (iterate.count + 1)) (refreshed x) broken)
    (hgradient : ∀ x B, Meets (belowLog record) (refreshed x B)
      (gradientAt f x (iterate.count + 1))
      (fun gradient => inv ⟨iterate.count + 1, x, gradient, B⟩) broken) :
    Meets (belowLog record) start (solver.advance f iterate) inv broken := by
  simp only [advance, ExceptT.bind_throw]
  apply hmatrix.bind
  intro held
  apply (hdirection held).bind
  intro direction
  apply Meets.ite
  · intro _
    exact .throw (hpoint held)
  · intro _
    apply (hafter held _).bind
    intro B
    apply (hgradient _ B).bind
    intro gradient
    exact .pure fun _ h => h

theorem iteration_meets
    (hadvance : ∀ iterate, Meets (belowLog record) (inv iterate) (solver.advance f iterate)
      inv broken)
    (iterate : Iterate α n) :
    Meets (belowLog record) (inv iterate) (solver.iteration f iterate) inv broken := by
  apply (hadvance iterate).bind
  intro next
  apply (tell_meets _).bind
  intro _
  exact .pure fun _ hnext => hnext

theorem iterateFrom_meets
    (hadvance : ∀ iterate, Meets (belowLog record) (inv iterate) (solver.advance f iterate)
      inv broken)
    (hcost : ∀ iterate, Meets (belowLog record) (inv iterate) (costAt f iterate.point)
      (fun _ => final iterate.hessian) broken)
    (remaining : Nat) (iterate : Iterate α n) :
    Meets (belowLog record) (inv iterate) (solver.iterateFrom f stopping remaining iterate)
      (fun report => final report.hessian) broken := by
  induction remaining generalizing iterate with
  | zero => exact conclude_meets hcost iterate .maxIterations
  | succ remaining ih =>
      apply (iteration_meets hadvance iterate).bind
      intro next
      exact .ite (fun _ => conclude_meets hcost next .converged) (fun _ => ih next)

end

variable {point : Array α} {inv : Iterate α point.size → ρ → Prop}

theorem enter_meets
    (hrefused : ∀ failure, solver.checkArguments point stopping = .error failure →
      ∀ lines, pre lines → broken failure lines)
    (hstart : Meets (belowLog record) pre (initialIterate f point.toVector) inv broken) :
    Meets (belowLog record) pre (solver.enter f point stopping) inv broken := by
  intro session hpre
  rw [outcome_enter]
  cases hchecked : solver.checkArguments point stopping with
  | error failure => exact hrefused failure hchecked _ hpre
  | ok _ => exact hstart _ hpre

/-- An invariant that the initial iterate has, and that every iteration keeps,
holds when a run asks for the value, and the report has the matrix of the last
iterate. -/
theorem run_meets_report (record : Tally × σ → ρ) (final : DenseMatrix α → ρ → Prop)
    (hrefused : ∀ failure, solver.checkArguments point stopping = .error failure →
      ∀ lines, pre lines → broken failure lines)
    (hstart : Meets (belowLog record) pre (initialIterate f point.toVector) inv broken)
    (hadvance : ∀ iterate, Meets (belowLog record) (inv iterate) (solver.advance f iterate)
      inv broken)
    (hcost : ∀ iterate, Meets (belowLog record) (inv iterate) (costAt f iterate.point)
      (fun _ => final iterate.hessian) broken) :
    Meets (belowLog record) pre (solver.run f point stopping)
      (fun report => final report.hessian) broken := by
  apply (enter_meets hrefused hstart).bind
  intro first
  exact .ite (fun _ => conclude_meets hcost first .converged)
    (fun _ => iterateFrom_meets hadvance hcost _ first)

theorem run_meets {final : ρ → Prop}
    (hrefused : ∀ failure lines, pre lines → broken failure lines)
    (hstart : Meets (belowLog record) pre (initialIterate f point.toVector) inv broken)
    (hadvance : ∀ iterate, Meets (belowLog record) (inv iterate) (solver.advance f iterate)
      inv broken)
    (hcost : ∀ iterate, Meets (belowLog record) (inv iterate) (costAt f iterate.point)
      (fun _ => final) broken) :
    Meets (belowLog record) pre (solver.run f point stopping) (fun _ => final) broken :=
  run_meets_report record (fun _ => final)
    (fun failure _ => hrefused failure) hstart hadvance hcost

/-- The invariant holds at every head as well. -/
theorem AtHead.meets {state : σ} {iterate : Iterate α point.size} {session : Session σ α}
    (head : AtHead solver f point stopping state iterate session) (record : Tally × σ → ρ)
    (hstart : Meets (belowLog record) pre (initialIterate f point.toVector) inv broken)
    (hadvance : ∀ iterate, Meets (belowLog record) (inv iterate) (solver.advance f iterate)
      inv broken)
    (hpre : pre (record ({}, state))) :
    inv iterate (belowLog record session) := by
  induction head with
  | first entered unmet =>
      rw [outcome_enter] at entered
      split at entered
      next => cases entered
      next =>
        have hfirst := hstart (Array.push #[] (.started solver.name), {}, state) hpre
        rwa [entered] at hfirst
  | next head room iterated unmet ih =>
      have hnext := iteration_meets hadvance _ _ ih
      rwa [iterated] at hnext

end Solver

end SecantDescent
