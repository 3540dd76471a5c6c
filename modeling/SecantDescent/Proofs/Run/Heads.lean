import SecantDescent.Proofs.Run.Inversion

/-!
# The heads of the iterations of a run

A run is a walk over pairs of an iterate and a session.  `AtHead` lists the
pairs from which it may begin another iteration, `Finishes` the pairs at which
it asks for the value and ends.  From a head the rest of the run is the loop
with the budget that is left, so a fact about all heads is proved by induction
along the walk, and the outcome of a run is read off the pair it ends at or
off the part that failed.
-/

namespace SecantDescent.Solver

variable {σ α : Type} [Scalar α]
variable {solver : Solver σ α} {f : Objective σ α} {point : Array α}
variable {stopping : StoppingRule α} {state : σ}

/-- The iterates that do not meet the tolerance, with the session there, in the
order in which a run comes to them. -/
inductive AtHead (solver : Solver σ α) (f : Objective σ α) (point : Array α)
    (stopping : StoppingRule α) (state : σ) : Iterate α point.size → Session σ α → Prop
  | first {iterate session}
      (entered : (solver.enter f point stopping).outcome (#[], {}, state) =
        (.ok iterate, session))
      (unmet : stopping.isSatisfiedBy iterate.gradient.toList = false) :
      AtHead solver f point stopping state iterate session
  | next {iterate session next after}
      (head : AtHead solver f point stopping state iterate session)
      (room : iterate.count < stopping.maxIterations.toNat)
      (iterated : (solver.iteration f iterate).outcome session = (.ok next, after))
      (unmet : stopping.isSatisfiedBy next.gradient.toList = false) :
      AtHead solver f point stopping state next after

/-- The iterate and the session at which a run ends, and why. -/
inductive Finishes (solver : Solver σ α) (f : Objective σ α) (point : Array α)
    (stopping : StoppingRule α) (state : σ) :
    Iterate α point.size → Session σ α → Ending → Prop
  | atOnce {iterate session}
      (entered : (solver.enter f point stopping).outcome (#[], {}, state) =
        (.ok iterate, session))
      (met : stopping.isSatisfiedBy iterate.gradient.toList = true) :
      Finishes solver f point stopping state iterate session .converged
  | converged {iterate session next after}
      (head : AtHead solver f point stopping state iterate session)
      (room : iterate.count < stopping.maxIterations.toNat)
      (iterated : (solver.iteration f iterate).outcome session = (.ok next, after))
      (met : stopping.isSatisfiedBy next.gradient.toList = true) :
      Finishes solver f point stopping state next after .converged
  | exhausted {iterate session}
      (head : AtHead solver f point stopping state iterate session)
      (spent : iterate.count = stopping.maxIterations.toNat) :
      Finishes solver f point stopping state iterate session .maxIterations

theorem iteration_count {n : Nat} {iterate next : Iterate α n} {session after : Session σ α}
    (h : (solver.iteration f iterate).outcome session = (.ok next, after)) :
    next.count = iterate.count + 1 := by
  obtain ⟨middle, hadvance, -⟩ := iteration_eq_ok_iff.mp h
  obtain ⟨_, _, _, _, -, -, hcount, -⟩ := advance_eq_ok_iff.mp hadvance
  exact hcount

theorem AtHead.count_le {iterate : Iterate α point.size} {session : Session σ α}
    (head : AtHead solver f point stopping state iterate session) :
    iterate.count ≤ stopping.maxIterations.toNat := by
  cases head with
  | first entered unmet =>
      rw [(enter_eq_ok_iff.mp entered).2.1]
      exact Nat.zero_le _
  | next head room iterated unmet =>
      rw [iteration_count iterated]
      exact room

theorem AtHead.unmet {iterate : Iterate α point.size} {session : Session σ α}
    (head : AtHead solver f point stopping state iterate session) :
    stopping.isSatisfiedBy iterate.gradient.toList = false := by
  cases head with
  | first entered unmet => exact unmet
  | next head room iterated unmet => exact unmet

theorem AtHead.validated {iterate : Iterate α point.size} {session : Session σ α}
    (head : AtHead solver f point stopping state iterate session) :
    stopping.validate = .ok () ∧ solver.step.validate = .ok () ∧
    validatePoint point = .ok () := by
  induction head with
  | first entered unmet => exact (enter_eq_ok_iff.mp entered).1
  | next head room iterated unmet ih => exact ih

/-- A walk comes to every earlier iteration first. -/
theorem AtHead.exists_earlier {iterate : Iterate α point.size} {session : Session σ α}
    (head : AtHead solver f point stopping state iterate session) {k : Nat}
    (hk : k ≤ iterate.count) :
    ∃ earlier before, AtHead solver f point stopping state earlier before ∧
      earlier.count = k := by
  induction head with
  | @first iterate session entered unmet =>
      have hcount : iterate.count = 0 := (enter_eq_ok_iff.mp entered).2.1
      exact ⟨iterate, session, .first entered unmet, by omega⟩
  | @next iterate session next after head room iterated unmet ih =>
      have hcount := iteration_count iterated
      by_cases hlast : k = next.count
      · exact ⟨next, after, .next head room iterated unmet, hlast.symm⟩
      · apply ih
        omega

theorem Finishes.exists_head {iterate : Iterate α point.size} {session : Session σ α}
    {ending : Ending} (finish : Finishes solver f point stopping state iterate session ending)
    {k : Nat} (hk : k < iterate.count) :
    ∃ earlier before, AtHead solver f point stopping state earlier before ∧
      earlier.count = k := by
  cases finish with
  | atOnce entered met =>
      have hcount : iterate.count = 0 := (enter_eq_ok_iff.mp entered).2.1
      omega
  | converged head room iterated met =>
      have hcount := iteration_count iterated
      apply head.exists_earlier
      omega
  | exhausted head spent => exact head.exists_earlier (Nat.le_of_lt hk)

/-- A run ends within the tolerance, or it has spent its budget without meeting
the tolerance. -/
theorem Finishes.ending_cases {iterate : Iterate α point.size} {session : Session σ α}
    {ending : Ending}
    (finish : Finishes solver f point stopping state iterate session ending) :
    (ending = .converged ∧ iterate.count ≤ stopping.maxIterations.toNat ∧
      stopping.isSatisfiedBy iterate.gradient.toList = true) ∨
    (ending = .maxIterations ∧ iterate.count = stopping.maxIterations.toNat ∧
      stopping.isSatisfiedBy iterate.gradient.toList = false) := by
  cases finish with
  | atOnce entered met =>
      have hcount : iterate.count = 0 := (enter_eq_ok_iff.mp entered).2.1
      exact .inl ⟨rfl, by omega, met⟩
  | converged head room iterated met =>
      have hcount := iteration_count iterated
      exact .inl ⟨rfl, by omega, met⟩
  | exhausted head spent => exact .inr ⟨rfl, spent, head.unmet⟩

/-- The loop, unfolded once. -/
theorem outcome_iterateFrom_succ {n : Nat} (remaining : Nat) (iterate : Iterate α n)
    (session : Session σ α) :
    (solver.iterateFrom f stopping (remaining + 1) iterate).outcome session =
      match (solver.iteration f iterate).outcome session with
      | (.error failure, after) => (.error failure, after)
      | (.ok next, after) =>
          if stopping.isSatisfiedBy next.gradient.toList then
            (conclude f stopping next .converged).outcome after
          else (solver.iterateFrom f stopping remaining next).outcome after := by
  rw [iterateFrom, Eval.outcome_bind]
  rcases (solver.iteration f iterate).outcome session with ⟨_ | next, after⟩
  · rfl
  · simp only
    split <;> rfl

/-- From a head on, a run is the loop with the budget that is left. -/
theorem AtHead.outcome_run {iterate : Iterate α point.size} {session : Session σ α}
    (head : AtHead solver f point stopping state iterate session) :
    (solver.run f point stopping).outcome (#[], {}, state) =
      (solver.iterateFrom f stopping (stopping.maxIterations.toNat - iterate.count)
        iterate).outcome session := by
  induction head with
  | first entered unmet =>
      rw [run, Eval.outcome_bind, entered, (enter_eq_ok_iff.mp entered).2.1]
      simp [unmet]
  | @next iterate session next after head room iterated unmet ih =>
      have hleft : stopping.maxIterations.toNat - iterate.count =
          stopping.maxIterations.toNat - next.count + 1 := by
        rw [iteration_count iterated]
        omega
      rw [ih, hleft, outcome_iterateFrom_succ, iterated]
      simp [unmet]

theorem Finishes.outcome_run {iterate : Iterate α point.size} {session : Session σ α}
    {ending : Ending}
    (finish : Finishes solver f point stopping state iterate session ending) :
    (solver.run f point stopping).outcome (#[], {}, state) =
      (conclude f stopping iterate ending).outcome session := by
  cases finish with
  | atOnce entered met =>
      rw [run, Eval.outcome_bind, entered]
      simp [met]
  | @converged iterate before _ _ head room iterated met =>
      obtain ⟨left, hleft⟩ : ∃ left, stopping.maxIterations.toNat - iterate.count = left + 1 :=
        ⟨stopping.maxIterations.toNat - iterate.count - 1, by omega⟩
      rw [head.outcome_run, hleft, outcome_iterateFrom_succ, iterated]
      simp [met]
  | exhausted head spent =>
      rw [head.outcome_run, spent, Nat.sub_self, iterateFrom]

/-! ## Every run ends -/

/-- A failure of a part of a run before it asks for the value. -/
inductive Breaks (solver : Solver σ α) (f : Objective σ α) (point : Array α)
    (stopping : StoppingRule α) (state : σ) : Failure α → Session σ α → Prop
  | entering {failure after}
      (entered : (solver.enter f point stopping).outcome (#[], {}, state) =
        (.error failure, after)) :
      Breaks solver f point stopping state failure after
  | iterating {iterate session failure after}
      (head : AtHead solver f point stopping state iterate session)
      (room : iterate.count < stopping.maxIterations.toNat)
      (iterated : (solver.iteration f iterate).outcome session = (.error failure, after)) :
      Breaks solver f point stopping state failure after

theorem Breaks.outcome_run {failure : Failure α} {after : Session σ α}
    (h : Breaks solver f point stopping state failure after) :
    (solver.run f point stopping).outcome (#[], {}, state) = (.error failure, after) := by
  cases h with
  | entering entered =>
      rw [run, Eval.outcome_bind, entered]
  | @iterating iterate _ _ _ head room iterated =>
      obtain ⟨left, hleft⟩ : ∃ left, stopping.maxIterations.toNat - iterate.count = left + 1 :=
        ⟨stopping.maxIterations.toNat - iterate.count - 1, by omega⟩
      rw [head.outcome_run, hleft, outcome_iterateFrom_succ, iterated]

/-- The walk from a head comes to an end within the budget. -/
theorem AtHead.ends {iterate : Iterate α point.size} {session : Session σ α}
    (head : AtHead solver f point stopping state iterate session) :
    (∃ failure after, Breaks solver f point stopping state failure after) ∨
      ∃ last final ending, Finishes solver f point stopping state last final ending := by
  induction hleft : stopping.maxIterations.toNat - iterate.count
    generalizing iterate session with
  | zero =>
      have hspent : iterate.count = stopping.maxIterations.toNat := by
        have := head.count_le
        omega
      exact .inr ⟨iterate, session, _, .exhausted head hspent⟩
  | succ left ih =>
      have hroom : iterate.count < stopping.maxIterations.toNat := by omega
      rcases hiterated : (solver.iteration f iterate).outcome session with
        ⟨failure | next, after⟩
      · exact .inl ⟨failure, after, .iterating head hroom hiterated⟩
      · cases hmet : stopping.isSatisfiedBy next.gradient.toList with
        | true => exact .inr ⟨next, after, _, .converged head hroom hiterated hmet⟩
        | false =>
            refine ih (.next head hroom hiterated hmet) ?_
            rw [iteration_count hiterated]
            omega

variable (solver f point stopping state) in
theorem run_ends :
    (∃ failure after, Breaks solver f point stopping state failure after) ∨
      ∃ last final ending, Finishes solver f point stopping state last final ending := by
  rcases hentered : (solver.enter f point stopping).outcome (#[], {}, state) with
    ⟨failure | first, session⟩
  · exact .inl ⟨failure, session, .entering hentered⟩
  · cases hmet : stopping.isSatisfiedBy first.gradient.toList with
    | true => exact .inr ⟨first, session, _, .atOnce hentered hmet⟩
    | false => exact (AtHead.first hentered hmet).ends

/-! ## The result of a run -/

omit [Scalar α] in
theorem exists_ok_of_any {β : Type} {result : Except (Failure α) β} {test : β → Bool}
    (h : result.toOption.any test = true) :
    ∃ value, result = .ok value ∧ test value = true := by
  cases result with
  | ok value => exact ⟨value, rfl, h⟩
  | error failure => cases h

/-- Whether a result is a failure that passes a test. -/
def failsWith {β : Type} (test : Failure α → Bool) : Except (Failure α) β → Bool
  | .ok _ => false
  | .error failure => test failure

omit [Scalar α] in
theorem exists_error_of_failsWith {β : Type} {result : Except (Failure α) β}
    {test : Failure α → Bool} (h : failsWith test result = true) :
    ∃ failure, result = .error failure ∧ test failure = true := by
  cases result with
  | ok value => cases h
  | error failure => exact ⟨failure, rfl, h⟩

omit [Scalar α] in
theorem eq_error_of_failsWith [DecidableEq α] {β : Type} {result : Except (Failure α) β}
    {failure : Failure α} (h : failsWith (· = failure) result = true) :
    result = .error failure := by
  obtain ⟨_, hresult, htest⟩ := exists_error_of_failsWith h
  rw [hresult, of_decide_eq_true htest]

omit [Scalar α] in
theorem exists_of_isOk {result : Except (Failure α) (Report α)} (h : result.isOk = true) :
    ∃ report, result = .ok report := by
  cases result with
  | ok report => exact ⟨report, rfl⟩
  | error failure => cases h

theorem minimize_result (solver : Solver σ α) (f : Objective σ α) (point : Array α)
    (stopping : StoppingRule α) (state : σ) :
    (solver.minimize f point stopping state).result =
      ((solver.run f point stopping).outcome (#[], {}, state)).1 := rfl

theorem minimize_eq_ok_iff {report : Report α} :
    (solver.minimize f point stopping state).result = .ok report ↔
      ∃ iterate session ending value after,
        Finishes solver f point stopping state iterate session ending ∧
        (costAt f iterate.point).outcome session = (.ok value, after) ∧
        report = (Report.of iterate.point.toArray value iterate.gradient.toArray
          iterate.hessian iterate.count ending).withEvaluations after.2.1 := by
  rw [minimize_result]
  constructor
  · intro h
    rcases run_ends solver f point stopping state with
      ⟨failure, after, hbreaks⟩ | ⟨iterate, session, ending, hfinish⟩
    · rw [hbreaks.outcome_run] at h
      cases h
    · rw [hfinish.outcome_run] at h
      rcases hconclude : (conclude f stopping iterate ending).outcome session with
        ⟨result, last⟩
      rw [hconclude] at h
      cases h
      obtain ⟨value, after, hcost, hreport, -⟩ := conclude_eq_ok_iff.mp hconclude
      exact ⟨iterate, session, ending, value, after, hfinish, hcost, hreport⟩
  · rintro ⟨iterate, session, ending, value, after, hfinish, hcost, hreport⟩
    rw [hfinish.outcome_run, conclude_eq_ok_iff.mpr ⟨value, after, hcost, hreport, rfl⟩]

/-- The log of a run that asks for the value and gets it. -/
theorem Finishes.minimize_log {iterate : Iterate α point.size} {session after : Session σ α}
    {ending : Ending} (finish : Finishes solver f point stopping state iterate session ending)
    {value : α} (hcost : (costAt f iterate.point).outcome session = (.ok value, after)) :
    (solver.minimize f point stopping state).log =
      session.1.push (lastEvent stopping iterate value ending) := by
  have hconclude : ((conclude f stopping iterate ending).outcome session).2 =
      (after.1.push (lastEvent stopping iterate value ending), after.2) :=
    congrArg Prod.snd (conclude_eq_ok_iff.mpr ⟨value, after, hcost, rfl, rfl⟩)
  have hrun := congrArg Prod.snd finish.outcome_run
  rw [← costAt_log hcost]
  exact congrArg Prod.fst (hrun.trans hconclude)

theorem minimize_eq_error {failure : Failure α}
    (h : (solver.minimize f point stopping state).result = .error failure) :
    (∃ after, Breaks solver f point stopping state failure after) ∨
      ∃ iterate session ending after,
        Finishes solver f point stopping state iterate session ending ∧
        (costAt f iterate.point).outcome session = (.error failure, after) := by
  rw [minimize_result] at h
  rcases run_ends solver f point stopping state with
    ⟨cause, after, hbreaks⟩ | ⟨iterate, session, ending, hfinish⟩
  · rw [hbreaks.outcome_run] at h
    cases h
    exact .inl ⟨after, hbreaks⟩
  · rw [hfinish.outcome_run] at h
    rcases hconclude : (conclude f stopping iterate ending).outcome session with
      ⟨result, last⟩
    rw [hconclude] at h
    cases h
    exact .inr ⟨iterate, session, ending, last, hfinish, conclude_eq_error_iff.mp hconclude⟩

end SecantDescent.Solver
