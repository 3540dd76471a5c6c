import SecantDescent.Proofs.Run.Inversion

/-!
# Runs that keep more

A callable that is watched keeps a record beside its own state and answers as
before.  The state without the record is a view of the state with it, and what
the watched callable does on the state is seen in the view as what the callable
itself does there.  This relation passes from the callables to every part of a
run, and so to the run.
-/

namespace SecantDescent

variable {σ σ' τ α β γ : Type}

namespace Eval

/-- Seen through the view, the first computation does what the second one does. -/
def Follows (view : σ' → σ) (rich : Eval σ' α β) (act : Eval σ α β) : Prop :=
  ∀ state, act.outcome (view state) = ((rich.outcome state).1, view (rich.outcome state).2)

namespace Follows

variable {view : σ' → σ} {rich : Eval σ' α β} {act : Eval σ α β}

theorem ofExcept (view : σ' → σ) (result : Except (Failure α) β) :
    Follows view (.ofExcept result) (.ofExcept result) := by
  intro state
  rfl

theorem pure (view : σ' → σ) (value : β) :
    Follows view (pure value : Eval σ' α β) (pure value : Eval σ α β) :=
  ofExcept view (.ok value)

theorem throw (view : σ' → σ) (failure : Failure α) :
    Follows view (throw failure : Eval σ' α β) (throw failure : Eval σ α β) :=
  ofExcept view (.error failure)

theorem bind (h : Follows view rich act) {richNext : β → Eval σ' α γ} {next : β → Eval σ α γ}
    (hnext : ∀ value, Follows view (richNext value) (next value)) :
    Follows view (rich >>= richNext) (act >>= next) := by
  intro state
  rw [outcome_bind, outcome_bind, h state]
  rcases rich.outcome state with ⟨failure | value, after⟩
  · rfl
  · exact hnext value after

theorem ite {condition : Prop} [Decidable condition] {rich' : Eval σ' α β} {act' : Eval σ α β}
    (h : Follows view rich act) (h' : Follows view rich' act') :
    Follows view (if condition then rich else rich') (if condition then act else act') := by
  by_cases hcondition : condition
  · rw [if_pos hcondition, if_pos hcondition]
    exact h
  · rw [if_neg hcondition, if_neg hcondition]
    exact h'

theorem beneath (h : Follows view rich act) :
    Follows (Prod.map id view) (rich.beneath : Eval (τ × σ') α β) act.beneath := by
  intro state
  have hbelow := h state.2
  rw [outcome_beneath, outcome_beneath, Prod.map_snd, hbelow]
  rfl

theorem modifyTop (view : σ' → σ) (change : τ → τ) :
    Follows (Prod.map id view) (modifyTop change : Eval (τ × σ') α Unit)
    (modifyTop change) := by
  intro state
  rfl

theorem readTop (view : σ' → σ) :
    Follows (Prod.map id view) (readTop : Eval (τ × σ') α τ) readTop := by
  intro state
  rfl

theorem after (h : Follows view rich act) (change : τ → τ) :
    Follows (Prod.map id view) (rich.after change) (act.after change) :=
  (modifyTop view change).bind fun _ => h.beneath

end Follows

end Eval

open Eval

structure Objective.Follows (view : σ' → σ) (rich : Objective σ' α) (f : Objective σ α) :
    Prop where
  cost : ∀ x, Eval.Follows view (rich.cost x) (f.cost x)
  gradient : ∀ x, Eval.Follows view (rich.gradient x) (f.gradient x)
  hessian : ∀ x, Eval.Follows view (rich.hessian x) (f.hessian x)

structure UpdateRule.Follows (view : σ' → σ) (rich : UpdateRule σ' α) (rule : UpdateRule σ α) :
    Prop where
  name : rich.name = rule.name
  refresh : ∀ held pair, Eval.Follows view (rich.refresh held pair) (rule.refresh held pair)

structure Solver.Follows (view : σ' → σ) (rich : Solver σ' α) (solver : Solver σ α) :
    Prop where
  step : rich.step = solver.step
  rule : Option.Rel (UpdateRule.Follows view) rich.rule solver.rule

variable {view : σ' → σ} {rich : Objective σ' α} {f : Objective σ α}

theorem Objective.Follows.counted (h : Objective.Follows view rich f) :
    Objective.Follows (Prod.map id view) rich.counted f.counted where
  cost x := (h.cost x).after _
  gradient x := (h.gradient x).after _
  hessian x := (h.hessian x).after _

theorem UpdateRule.Follows.beneath {richRule : UpdateRule σ' α} {rule : UpdateRule σ α}
    (h : UpdateRule.Follows view richRule rule) :
    UpdateRule.Follows (Prod.map id view) (richRule.beneath : UpdateRule (τ × σ') α)
      rule.beneath where
  name := h.name
  refresh held pair := (h.refresh held pair).beneath

variable [Scalar α] {n : Nat}

theorem SecantPair.between_follows (h : Objective.Follows view rich f) (point next : Array α) :
    Eval.Follows view (between rich point next) (between f point next) := by
  unfold between
  simp only [ExceptT.bind_throw]
  apply Follows.ite (.throw view _)
  apply (h.gradient point).bind
  intro gradient
  apply (h.gradient next).bind
  intro nextGradient
  apply Follows.ite (.throw view _)
  apply Follows.ite (.throw view _)
  apply (Follows.ofExcept view _).bind
  intro s
  apply (Follows.ofExcept view _).bind
  intro y
  exact .ofExcept view _

theorem UpdateRule.advance_follows {richRule : UpdateRule σ' α} {rule : UpdateRule σ α}
    (hrule : UpdateRule.Follows view richRule rule) (h : Objective.Follows view rich f)
    (held : DenseMatrix α) (point next : Array α) :
    Eval.Follows view (richRule.advance rich held point next)
    (rule.advance f held point next) :=
  (SecantPair.between_follows h point next).bind fun pair => hrule.refresh held pair

namespace Solver

variable {richSolver : Solver σ' α} {solver : Solver σ α}

abbrev seen (view : σ' → σ) : Session σ' α → Session σ α :=
  Prod.map id (Prod.map id view)

omit [Scalar α] in
theorem tell_follows (view : σ' → σ) (event : Event α) :
    Eval.Follows (seen view) (tell event) (tell event) :=
  Follows.modifyTop _ _

theorem gradientAt_follows (h : Objective.Follows view rich f) (x : Vector α n) (k : Nat) :
    Eval.Follows (seen view) (gradientAt rich x k) (gradientAt f x k) :=
  (h.counted.gradient x.toArray).beneath.bind fun _ => .ofExcept _ _

theorem hessianAt_follows (h : Objective.Follows view rich f) (x : Vector α n) (k : Nat) :
    Eval.Follows (seen view) (hessianAt rich x k) (hessianAt f x k) := by
  apply (h.counted.hessian x.toArray).beneath.bind
  intro hessian
  apply (Follows.ofExcept _ _).bind
  intro _
  exact .pure _ hessian

omit [Scalar α] in
theorem costAt_follows (h : Objective.Follows view rich f) (x : Vector α n) :
    Eval.Follows (seen view) (costAt rich x) (costAt f x) :=
  (h.counted.cost x.toArray).beneath

theorem adopt_follows (view : σ' → σ) (method : String) (held : DenseMatrix α) (k : Nat)
    (refresh : Refresh α) :
    Eval.Follows (seen view) (adopt method held k refresh) (adopt method held k refresh) := by
  intro session
  rw [outcome_adopt, outcome_adopt]
  rfl

omit [Scalar α] in
theorem Follows.isNone (hs : Solver.Follows view richSolver solver) :
    richSolver.rule.isNone = solver.rule.isNone := by
  obtain ⟨_, richRule⟩ := richSolver
  obtain ⟨_, rule⟩ := solver
  cases hs.rule <;> rfl

omit [Scalar α] in
theorem Follows.name (hs : Solver.Follows view richSolver solver) :
    richSolver.name = solver.name := by
  obtain ⟨_, richRule⟩ := richSolver
  obtain ⟨_, rule⟩ := solver
  cases hs.rule with
  | none => rfl
  | some hrule => exact hrule.name

theorem matrixFor_follows (hs : Solver.Follows view richSolver solver)
    (h : Objective.Follows view rich f) (iterate : Iterate α n) :
    Eval.Follows (seen view) (richSolver.matrixFor rich iterate)
    (solver.matrixFor f iterate) := by
  rw [matrixFor, matrixFor, hs.isNone]
  exact .ite (hessianAt_follows h _ _) (.pure _ _)

theorem matrixAfter_follows (hs : Solver.Follows view richSolver solver)
    (h : Objective.Follows view rich f) (held : DenseMatrix α) (x x' : Vector α n) (k : Nat) :
    Eval.Follows (seen view) (richSolver.matrixAfter rich held x x' k)
      (solver.matrixAfter f held x x' k) := by
  obtain ⟨_, richRule⟩ := richSolver
  obtain ⟨_, rule⟩ := solver
  cases hs.rule with
  | none => exact .pure _ held
  | @some richRule rule hrule =>
      simp only [matrixAfter, hrule.name]
      apply (UpdateRule.advance_follows hrule.beneath h.counted held _ _).beneath.bind
      intro refresh
      exact adopt_follows view rule.name held k refresh

theorem advance_follows (hs : Solver.Follows view richSolver solver)
    (h : Objective.Follows view rich f) (iterate : Iterate α n) :
    Eval.Follows (seen view) (richSolver.advance rich iterate) (solver.advance f iterate) := by
  simp only [advance, ExceptT.bind_throw, hs.step]
  apply (matrixFor_follows hs h iterate).bind
  intro held
  apply (Follows.ofExcept _ _).bind
  intro direction
  apply Follows.ite (.throw _ _)
  apply (matrixAfter_follows hs h _ _ _ _).bind
  intro hessian
  apply (gradientAt_follows h _ _).bind
  intro gradient
  exact .pure _ _

theorem iteration_follows (hs : Solver.Follows view richSolver solver)
    (h : Objective.Follows view rich f) (iterate : Iterate α n) :
    Eval.Follows (seen view) (richSolver.iteration rich iterate)
      (solver.iteration f iterate) := by
  apply (advance_follows hs h iterate).bind
  intro next
  apply (tell_follows view _).bind
  intro _
  exact .pure _ next

theorem conclude_follows (h : Objective.Follows view rich f) (stopping : StoppingRule α)
    (iterate : Iterate α n) (ending : Ending) :
    Eval.Follows (seen view) (conclude rich stopping iterate ending)
      (conclude f stopping iterate ending) := by
  apply (costAt_follows h iterate.point).bind
  intro value
  apply (tell_follows view _).bind
  intro _
  apply (Follows.readTop view).beneath.bind
  intro calls
  exact .pure _ _

theorem iterateFrom_follows (hs : Solver.Follows view richSolver solver)
    (h : Objective.Follows view rich f) (stopping : StoppingRule α) (remaining : Nat)
    (iterate : Iterate α n) :
    Eval.Follows (seen view) (richSolver.iterateFrom rich stopping remaining iterate)
      (solver.iterateFrom f stopping remaining iterate) := by
  induction remaining generalizing iterate with
  | zero => exact conclude_follows h stopping iterate .maxIterations
  | succ remaining ih =>
      apply (iteration_follows hs h iterate).bind
      intro next
      exact .ite (conclude_follows h stopping next .converged) (ih next)

theorem enter_follows (hs : Solver.Follows view richSolver solver)
    (h : Objective.Follows view rich f) (point : Array α) (stopping : StoppingRule α) :
    Eval.Follows (seen view) (richSolver.enter rich point stopping)
      (solver.enter f point stopping) := by
  rw [enter, enter, hs.name, hs.step]
  apply (tell_follows view _).bind
  intro _
  apply (Follows.ofExcept _ stopping.validate).bind
  intro _
  apply (Follows.ofExcept _ solver.step.validate).bind
  intro _
  apply (Follows.ofExcept _ (validatePoint point)).bind
  intro _
  apply (gradientAt_follows h point.toVector 0).bind
  intro gradient
  apply (hessianAt_follows h point.toVector 0).bind
  intro hessian
  exact .pure _ _

theorem run_follows (hs : Solver.Follows view richSolver solver)
    (h : Objective.Follows view rich f) (point : Array α) (stopping : StoppingRule α) :
    Eval.Follows (seen view) (richSolver.run rich point stopping)
      (solver.run f point stopping) := by
  apply (enter_follows hs h point stopping).bind
  intro first
  exact .ite (conclude_follows h stopping first .converged)
    (iterateFrom_follows hs h stopping _ first)

/-- What is kept beside the state changes nothing about a run. -/
theorem minimize_follows (hs : Solver.Follows view richSolver solver)
    (h : Objective.Follows view rich f) (point : Array α) (stopping : StoppingRule α)
    (state : σ') :
    solver.minimize f point stopping (view state) =
      { result := (richSolver.minimize rich point stopping state).result
        state := view (richSolver.minimize rich point stopping state).state
        calls := (richSolver.minimize rich point stopping state).calls
        log := (richSolver.minimize rich point stopping state).log } := by
  have hrun := run_follows hs h point stopping (#[], {}, state)
  have hopening : ((#[], {}, view state) : Session σ α) = seen view (#[], {}, state) := rfl
  rw [minimize, hopening, hrun]
  rfl

end Solver

end SecantDescent
