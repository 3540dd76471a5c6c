import SecantDescent.Proofs.Run.Kinds

/-!
# Runs with callables that answer anything

The callables may answer with vectors and matrices of any shape and any
entries, and differently at every call.  A run with one of the secant rules, or
without a rule, still holds finite data of the right shape at every head, and
no operation in it meets operands whose sizes do not fit.
-/

namespace SecantDescent

open Eval

variable {σ α : Type} [Scalar α] {n : Nat}

/-- The callables do not themselves combine operands of different sizes. -/
structure Objective.NeverClashes (f : Objective σ α) : Prop where
  cost : ∀ x state, ((f.cost x).outcome state).1 ≠ .error .shapeClash
  gradient : ∀ x state, ((f.gradient x).outcome state).1 ≠ .error .shapeClash
  hessian : ∀ x state, ((f.hessian x).outcome state).1 ≠ .error .shapeClash

/-- All the data of an iterate are finite, and the matrix is square of the size
of the point. -/
structure Iterate.Sound (iterate : Iterate α n) : Prop where
  point : Scalar.allFinite iterate.point.toList = true
  gradient : Scalar.allFinite iterate.gradient.toList = true
  hessian : iterate.hessian.FiniteSquare n

namespace Solver

variable {f : Objective σ α} {stepLength : α} {method : Option (SecantRule × Safeguard α)}

theorem rule_ofSecant {rule : UpdateRule σ α}
    (h : (ofSecant stepLength method : Solver σ α).rule = some rule) :
    ∃ secant safeguard, rule = SecantRule.toUpdateRule secant safeguard := by
  obtain ⟨⟨secant, safeguard⟩, -, rfl⟩ := Option.map_eq_some_iff.mp h
  exact ⟨secant, safeguard, rfl⟩

/-! ## Shapes are kept -/

theorem matrixFor_finiteSquare {solver : Solver σ α} {iterate : Iterate α n}
    {held : DenseMatrix α} {state after : Session σ α}
    (hsound : iterate.hessian.FiniteSquare n)
    (h : (solver.matrixFor f iterate).outcome state = (.ok held, after)) :
    held.FiniteSquare n := by
  rw [matrixFor_eq_ok_iff] at h
  split at h
  next => exact (hessianAt_eq_ok_iff.mp h).1
  next => exact h.1 ▸ hsound

theorem between_sizes {g : Objective σ α} {point next : Vector α n} {pair : SecantPair α}
    {state after : σ}
    (h : (SecantPair.between g point.toArray next.toArray).outcome state = (.ok pair, after)) :
    pair.s.size = n ∧ pair.y.size = n := by
  obtain ⟨-, _, _, _, -, -, hgradient, hnext, rfl⟩ := SecantPair.between_eq_ok_iff.mp h
  rw [Vector.size_toArray] at hgradient hnext
  simp [hgradient, hnext]

theorem matrixAfter_finiteSquare {held B : DenseMatrix α} {point next : Vector α n}
    {iteration : Nat} {state after : Session σ α} (hheld : held.FiniteSquare n)
    (h : ((ofSecant stepLength method).matrixAfter f held point next iteration).outcome state =
      (.ok B, after)) : B.FiniteSquare n := by
  cases hrule : (ofSecant stepLength method : Solver σ α).rule with
  | none =>
      rw [matrixAfter_of_rule_eq_none hrule] at h
      cases h
      exact hheld
  | some rule =>
      obtain ⟨pair, middle, refresh, below, hpair, hrefresh, rfl, hfinite, -⟩ :=
        (matrixAfter_eq_ok_iff hrule).mp h
      obtain ⟨secant, safeguard, rfl⟩ := rule_ofSecant hrule
      obtain ⟨hs, hy⟩ := between_sizes hpair
      have hresult : secant.refresh safeguard held pair = .ok refresh :=
        congrArg Prod.fst hrefresh
      obtain ⟨hrows, hcols⟩ := SecantRule.shape_of_refresh hheld.rows hheld.cols hs hy hresult
      exact ⟨hrows, hcols, hfinite⟩

theorem sound_of_enter {solver : Solver σ α} {point : Array α} {stopping : StoppingRule α}
    {iterate : Iterate α point.size} {state after : Session σ α}
    (h : (solver.enter f point stopping).outcome state = (.ok iterate, after)) :
    iterate.Sound := by
  obtain ⟨⟨-, -, hpoint⟩, -, hstart, middle, hgradient, hhessian⟩ := enter_eq_ok_iff.mp h
  refine ⟨?_, (gradientAt_eq_ok_iff.mp hgradient).1, (hessianAt_eq_ok_iff.mp hhessian).1⟩
  rw [hstart]
  change Scalar.allFinite point.toList = true
  unfold validatePoint at hpoint
  split at hpoint
  · cases hpoint
  · split at hpoint
    · cases hpoint
    next hfinite => simpa using hfinite

theorem sound_of_iteration {iterate next : Iterate α n} {state after : Session σ α}
    (hsound : iterate.Sound)
    (h : ((ofSecant stepLength method).iteration f iterate).outcome state =
      (.ok next, after)) : next.Sound := by
  obtain ⟨middle, hadvance, -⟩ := iteration_eq_ok_iff.mp h
  obtain ⟨held, first, direction, second, hheld, -, -, -, hpoint, hB, hgradient⟩ :=
    advance_eq_ok_iff.mp hadvance
  exact ⟨hpoint, (gradientAt_eq_ok_iff.mp hgradient).1,
    matrixAfter_finiteSquare (matrixFor_finiteSquare hsound.hessian hheld) hB⟩

theorem sound_of_head {point : Array α} {stopping : StoppingRule α} {state : σ}
    {iterate : Iterate α point.size} {session : Session σ α}
    (head : AtHead (ofSecant stepLength method) f point stopping state iterate session) :
    iterate.Sound := by
  induction head with
  | first entered unmet => exact sound_of_enter entered
  | next head room iterated unmet ih => exact sound_of_iteration ih iterated

theorem sound_of_finish {point : Array α} {stopping : StoppingRule α} {state : σ}
    {iterate : Iterate α point.size} {session : Session σ α} {ending : Ending}
    (finish : Finishes (ofSecant stepLength method) f point stopping state iterate session
      ending) : iterate.Sound := by
  cases finish with
  | atOnce entered met => exact sound_of_enter entered
  | converged head room iterated met => exact sound_of_iteration (sound_of_head head) iterated
  | exhausted head spent => exact sound_of_head head

/-! ## Sizes fit -/

omit [Scalar α] in
theorem takesOwn_ne_shapeClash :
    Failure.TakesOwn fun failure : Failure α => failure ≠ .shapeClash :=
  ⟨fun _ _ _ => nofun, fun _ => nofun, fun _ _ => nofun⟩

omit [Scalar α] in
theorem failsAs_of_neverClashes (hf : f.NeverClashes) :
    f.FailsAs fun failure => failure ≠ .shapeClash where
  cost x state _ hfailure hclash := hf.cost x state (hclash ▸ hfailure)
  gradient x state _ hfailure hclash := hf.gradient x state (hclash ▸ hfailure)
  hessian x state _ hfailure hclash := hf.hessian x state (hclash ▸ hfailure)

theorem iteration_ne_shapeClash (hf : f.NeverClashes) {iterate : Iterate α n}
    {state after : Session σ α} :
    ((ofSecant stepLength method).iteration f iterate).outcome state ≠
      (.error .shapeClash, after) := by
  intro h
  refine iteration_failsAs takesOwn_ne_shapeClash (failsAs_of_neverClashes hf) ?_ h rfl
  intro rule hrule
  obtain ⟨secant, safeguard, rfl⟩ := rule_ofSecant hrule
  exact secant.toUpdateRule_failsAs takesOwn_ne_shapeClash (fun _ _ _ => nofun) safeguard

theorem enter_ne_shapeClash (hf : f.NeverClashes) {solver : Solver σ α} {point : Array α}
    {stopping : StoppingRule α} {state after : Session σ α} :
    (solver.enter f point stopping).outcome state ≠ (.error .shapeClash, after) := by
  intro h
  rcases enter_failsAs takesOwn_ne_shapeClash (failsAs_of_neverClashes hf) h with
    hrefused | hclash
  · obtain ⟨argument, hargument⟩ := checkArguments_eq_error hrefused
    cases hargument
  · exact hclash rfl

/-- Whatever the callables answer, the data at every head and in every report
are finite and of the size of the initial point; the matrix of every direction
and both parts of every secant pair have that size, too, and a run never
combines operands of different sizes. -/
theorem run_is_sound_and_never_clashes (f : Objective σ α) (hf : f.NeverClashes)
    (stepLength : α) (method : Option (SecantRule × Safeguard α)) (point : Array α)
    (stopping : StoppingRule α) (state : σ) :
    (∀ iterate session,
      AtHead (ofSecant stepLength method) f point stopping state iterate session →
      Scalar.allFinite iterate.point.toList = true ∧
      Scalar.allFinite iterate.gradient.toList = true ∧
      iterate.hessian.FiniteSquare point.size ∧
      ∀ held first,
        ((ofSecant stepLength method).matrixFor f iterate).outcome session =
          (.ok held, first) →
        held.FiniteSquare point.size ∧
        ∀ (next : Vector α point.size) pair middle,
          (SecantPair.between f.counted iterate.point.toArray next.toArray).outcome first.2 =
            (.ok pair, middle) →
          pair.s.size = point.size ∧ pair.y.size = point.size) ∧
    ((ofSecant stepLength method).minimize f point stopping state).result ≠
      .error .shapeClash ∧
    ∀ report,
      ((ofSecant stepLength method).minimize f point stopping state).result = .ok report →
      report.point.size = point.size ∧ Scalar.allFinite report.point.toList = true ∧
      report.gradient.size = point.size ∧ Scalar.allFinite report.gradient.toList = true ∧
      report.hessian.FiniteSquare point.size := by
  refine ⟨?_, ?_, ?_⟩
  · intro iterate session head
    have hsound := sound_of_head head
    refine ⟨hsound.point, hsound.gradient, hsound.hessian, fun held first hheld => ?_⟩
    exact ⟨matrixFor_finiteSquare hsound.hessian hheld, fun _ _ _ hpair => between_sizes hpair⟩
  · intro h
    rcases minimize_eq_error h with ⟨after, hbreaks⟩ | ⟨iterate, session, _, after, -, h⟩
    · cases hbreaks with
      | entering entered => exact enter_ne_shapeClash hf entered
      | iterating head room iterated => exact iteration_ne_shapeClash hf iterated
    · exact hf.cost _ _ (congrArg Prod.fst (costAt_eq_error h))
  · intro report h
    obtain ⟨iterate, session, ending, value, after, hfinish, -, rfl⟩ := minimize_eq_ok_iff.mp h
    have hsound := sound_of_finish hfinish
    exact ⟨iterate.point.size_toArray, hsound.point, iterate.gradient.size_toArray,
      hsound.gradient, hsound.hessian⟩

/-- Callables that count the gradients asked for.  The gradients of the secant pairs
are not finite, those that a run works with are, and after the seventh one the
gradients get longer and longer. -/
def erratic : Objective Nat Float where
  cost _ := .ofExcept (.ok Scalar.notANumber)
  gradient _ := .of fun k =>
    (.ok <| match k with
      | 0 => #[1, 1]
      | 1 => #[Scalar.notANumber, 1 / 0]
      | 2 => #[-1 / 0, Scalar.notANumber]
      | 3 => #[1, -1]
      | 4 => #[1, 1]
      | 5 => #[Scalar.notANumber, 0]
      | 6 => #[2, 1]
      | _ => Array.replicate k Scalar.notANumber, k + 1)
  hessian _ := .ofExcept (.ok (.ofGrid (Grid.identity 2)))

theorem erratic_neverClashes : erratic.NeverClashes :=
  ⟨fun _ _ => nofun, fun _ _ => nofun, fun _ _ => nofun⟩

/-- Two iterations get through, the third one meets gradients of the wrong length. -/
theorem erratic_run_is_sound :
    let solver : Solver Nat Float := ofSecant 1 (some (.bfgs, ⟨.skip, Scalar.notANumber⟩))
    erratic.NeverClashes ∧
      (solver.minimize erratic #[1, 2] ⟨0, 3⟩ 0).result ≠ .error .shapeClash ∧
      (∃ report, (solver.minimize erratic #[1, 2] ⟨0, 2⟩ 0).result = .ok report ∧
        report.iterations = 2 ∧ report.hessian.FiniteSquare 2) ∧
      ∃ iterate session, ∃ next : Vector Float 2, ∃ pair middle,
        AtHead solver erratic #[1, 2] ⟨0, 2⟩ 0 iterate session ∧ iterate.count = 1 ∧
        iterate.hessian.FiniteSquare 2 ∧
        (SecantPair.between erratic.counted iterate.point.toArray next.toArray).outcome
          session.2 = (.ok pair, middle) ∧
        pair.s.size = 2 ∧ pair.y.size = 2 := by
  intro solver
  have hevaluated : (solver.minimize erratic #[1, 2] ⟨0, 2⟩ 0).result.toOption.any
      (fun report => report.iterations = 2 && report.ending = .maxIterations) = true := by
    decide +kernel
  obtain ⟨report, hreport, htest⟩ := exists_ok_of_any hevaluated
  obtain ⟨hiterations, hending⟩ := Bool.and_eq_true_iff.mp htest
  obtain ⟨hheads, -, hreports⟩ := run_is_sound_and_never_clashes erratic erratic_neverClashes 1
    (some (.bfgs, ⟨.skip, Scalar.notANumber⟩)) #[1, 2] ⟨0, 2⟩ 0
  obtain ⟨-, hclash, -⟩ := run_is_sound_and_never_clashes erratic erratic_neverClashes 1
    (some (.bfgs, ⟨.skip, Scalar.notANumber⟩)) #[1, 2] ⟨0, 3⟩ 0
  refine ⟨erratic_neverClashes, hclash, ⟨report, hreport, of_decide_eq_true hiterations,
    (hreports report hreport).2.2.2.2⟩, ?_⟩
  -- The head at which the budget is spent comes from an iteration, and that from the
  -- head before.
  obtain ⟨last, final, ending, _, _, hfinish, -, rfl⟩ := minimize_eq_ok_iff.mp hreport
  have hcount : last.count = 2 := of_decide_eq_true hiterations
  cases hfinish with
  | atOnce entered met => cases hending
  | converged head room iterated met => cases hending
  | exhausted head spent =>
      cases head with
      | first entered unmet =>
          rw [(enter_eq_ok_iff.mp entered).2.1] at hcount
          cases hcount
      | @next iterate session _ _ head room iterated unmet =>
          rw [iteration_count iterated] at hcount
          obtain ⟨_, hadvance, -⟩ := iteration_eq_ok_iff.mp iterated
          obtain ⟨held, first, _, _, hheld, -, -, -, -, hafter, -⟩ :=
            advance_eq_ok_iff.mp hadvance
          obtain ⟨pair, middle, _, _, hpair, -⟩ := (matrixAfter_eq_ok_iff rfl).mp hafter
          obtain ⟨-, -, hsquare, hsizes⟩ := hheads iterate session head
          obtain ⟨-, hsizes⟩ := hsizes held first hheld
          cases hheld
          exact ⟨iterate, session, last.point, pair, middle, head, Nat.succ.inj hcount,
            hsquare, hpair, hsizes _ _ _ hpair⟩

end Solver

end SecantDescent
